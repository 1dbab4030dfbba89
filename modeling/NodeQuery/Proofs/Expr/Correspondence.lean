import Mathlib.Data.List.Forall2
import NodeQuery.Expr.Eval
import NodeQuery.Proofs.Evaluation

/-!
# Evaluations that correspond

One expression is evaluated twice: before and after a document is let go, with a variable bound in one
order and in another, with two handlers, or beside itself.  The two evaluations correspond as long as
their parts do.  What this takes is listed once, part by part, for a relation between the values of the
two and a relation between their steps; that whole expressions then correspond is proved once, by
induction over expressions, arguments, steps and predicates.

An evaluation beside itself, whose values are related to themselves just if they have some property, is
an evaluation all of whose values have the property.
-/

namespace NodeQuery

variable {σ τ : Type}

/-- The node in focus, if there is one, is one of those that `here` tells. -/
def Focus.Within (focus : Focus) (here : NodeId → Prop) : Prop :=
  ∀ id, focus.node = some id → here id

/-- The lists are the same, and list only nodes that `here` tells. -/
def Evaluation.SameWithin (here : NodeId → Prop) (ids others : List NodeId) : Prop :=
  ids = others ∧ ∀ id ∈ ids, here id

/-- A class of expressions with the parts that they are made of.  Of some parts more is known: that they
are settled. -/
structure Expr.Scope where
  expr : Expr → Prop
  all : List Expr → Prop
  steps : List Step → Prop
  settled : Expr → Prop
  call : ∀ {function arguments}, expr (.call function arguments) → all arguments
  arithmetic : ∀ {operator left right}, expr (.arithmetic operator left right) →
    (settled left ∧ expr left) ∧ settled right ∧ expr right
  connective : ∀ {operator left right}, expr (.connective operator left right) →
    expr left ∧ expr right
  comparison : ∀ {operator left right}, expr (.comparison operator left right) →
    expr left ∧ expr right
  negate : ∀ {operand}, expr (.negate operand) → settled operand ∧ expr operand
  union : ∀ {left right}, expr (.union left right) → expr left ∧ expr right
  rootPath : ∀ {path}, expr (.rootPath path) → steps path
  focusPath : ∀ {path}, expr (.focusPath path) → steps path
  exprPath : ∀ {start path}, expr (.exprPath start path) →
    (path = [] → settled start) ∧ expr start ∧ steps path
  filter : ∀ {primary predicates}, expr (.filter primary predicates) →
    (settled primary ∧ expr primary) ∧ all predicates
  cons : ∀ {first others}, all (first :: others) → expr first ∧ all others
  step : ∀ {axis test predicates path}, steps (.mk axis test predicates :: path) →
    all predicates ∧ steps path

/-- A relation between steps, for every relation between the values that the two give, that is kept when
steps are put one after the other. -/
structure Evaluation.Composes
    (related : ∀ {α β : Type}, (α → β → Prop) → Evaluation σ α → Evaluation τ β → Prop) : Prop where
  pure : ∀ {α β : Type} {alike : α → β → Prop} {first : α} {second : β}, alike first second →
    related alike (Pure.pure first) (Pure.pure second)
  bind : ∀ {α β γ δ : Type} {alike : α → β → Prop} {last : γ → δ → Prop} {left : Evaluation σ α}
    {right : Evaluation τ β} {next : α → Evaluation σ γ} {other : β → Evaluation τ δ},
    related alike left right →
      (∀ first second, alike first second → related last (next first) (other second)) →
        related last (left >>= next) (right >>= other)

/-- What it takes for two evaluations of the expressions of a scope to correspond.  Values that are
`like` each other are as good as the same where it is only asked whether they hold, how they compare and
which nodes they have; elsewhere they have to be the `same`, as those of settled expressions are.  Nodes
in focus are nodes that `here` tells. -/
structure Evaluation.Correspondence (scope : Expr.Scope) (forest later : Forest) (one : Context σ)
    (other : Context τ)
    (related : ∀ {α β : Type}, (α → β → Prop) → Evaluation σ α → Evaluation τ β → Prop)
    (here : NodeId → Prop) (same like : Value → Value → Prop) : Prop
    extends Evaluation.Composes related where
  scalar : ∀ {value : Value}, (∀ set, value ≠ .nodeSet set) → same value value
  like_of_same : ∀ {first second : Value}, same first second → like first second
  toBoolean_eq : ∀ {first second : Value}, like first second → first.toBoolean = second.toBoolean
  toNumber_eq : ∀ {first second : Value}, same first second →
    first.toNumber forest = second.toNumber later
  holds_eq : ∀ {comparison : Comparison} {first second third fourth : Value}, like first second →
    like third fourth → comparison.holds forest first third = comparison.holds later second fourth
  keeps_eq : ∀ {calledFunction : Option String} {position : Nat} {first second : Value},
    like first second →
      keeps one calledFunction first position = keeps other calledFunction second position
  inFocus : ∀ {focus : Focus}, focus.Within here →
    same (focusValue forest focus) (focusValue later focus)
  sorted : ∀ {ids : List NodeId}, (∀ id ∈ ids, here id) →
    same (.nodeSet (NodeSet.inDocumentOrder forest ids)) (.nodeSet (NodeSet.inDocumentOrder later ids))
  candidates : ∀ {axis test predicates path} {id : NodeId},
    scope.steps (.mk axis test predicates :: path) → here id →
      SameWithin here (candidates forest axis test id) (candidates later axis test id)
  bound : ∀ {name : String}, scope.expr (.var name) →
    related (fun first second => like first second ∧ (scope.settled (.var name) → same first second))
      (variableValue one name) (variableValue other name)
  called : ∀ {focus : Focus} {function : String} {arguments : List Expr} {values others : List Value},
    scope.expr (.call function arguments) → focus.Within here → List.Forall₂ like values others →
      ((∀ argument ∈ arguments, scope.settled argument) → List.Forall₂ same values others) →
        related same (call forest one focus function values) (call later other focus function others)
  rooted : ∀ {focus : Focus} {path : List Step}, scope.expr (.rootPath path) → focus.Within here →
    related same (rootsOf forest (focusValue forest focus)) (rootsOf later (focusValue later focus))
  united : ∀ {first second third fourth : Value}, like first second → like third fourth →
    related same (unionOf forest first third) (unionOf later second fourth)
  filtered : ∀ {first second : Value}, same first second →
    related (SameWithin here) (requireNodes .predicate first) (requireNodes .predicate second)
  stepped : ∀ {axis test predicates path} {first second : Value},
    scope.steps (.mk axis test predicates :: path) → like first second →
      (∀ id, here id → related (SameWithin here)
        (Expr.keptBy forest one predicates (Evaluation.candidates forest axis test id))
        (Expr.keptBy later other predicates (Evaluation.candidates later axis test id))) →
      related (fun found further => same (.nodeSet (NodeSet.inDocumentOrder forest found))
          (.nodeSet (NodeSet.inDocumentOrder later further)))
        (requireNodes .step first >>= collect fun id =>
          Expr.keptBy forest one predicates (Evaluation.candidates forest axis test id))
        (requireNodes .step second >>= collect fun id =>
          Expr.keptBy later other predicates (Evaluation.candidates later axis test id))

namespace Evaluation

section
variable {related : ∀ {α β : Type}, (α → β → Prop) → Evaluation σ α → Evaluation τ β → Prop}
variable {here : NodeId → Prop}

namespace Composes

variable (composes : Composes related)
include composes

theorem mono {α β : Type} {alike weaker : α → β → Prop} {left : Evaluation σ α}
    {right : Evaluation τ β} (given : related alike left right)
    (implies : ∀ first second, alike first second → weaker first second) :
    related weaker left right := by
  have renamed := composes.bind given fun first second holds =>
    composes.pure (implies first second holds)
  rwa [bind_pure, bind_pure] at renamed

theorem keepWhere {test : Focus → Evaluation σ Bool} {other : Focus → Evaluation τ Bool}
    (tests : ∀ focus : Focus, focus.Within here → related Eq (test focus) (other focus))
    {ids : List NodeId} (inside : ∀ id ∈ ids, here id) (last position : Nat) :
    related (SameWithin here) (Evaluation.keepWhere test last position ids)
      (Evaluation.keepWhere other last position ids) := by
  induction ids generalizing position with
  | nil => exact composes.pure ⟨rfl, inside⟩
  | cons id ids ih =>
      obtain ⟨first, rest⟩ := List.forall_mem_cons.mp inside
      rw [Evaluation.keepWhere, Evaluation.keepWhere]
      apply composes.bind (tests _ fun _ focused => by rwa [← Option.some.inj focused])
      rintro kept _ rfl
      apply composes.bind (ih rest (position + 1))
      rintro others _ ⟨rfl, othersInside⟩
      apply composes.pure
      refine ⟨rfl, ?_⟩
      split
      · exact List.forall_mem_cons.mpr ⟨first, othersInside⟩
      · exact othersInside

theorem collect {find : NodeId → Evaluation σ (List NodeId)}
    {other : NodeId → Evaluation τ (List NodeId)}
    (finds : ∀ id, here id → related (SameWithin here) (find id) (other id)) {ids : List NodeId}
    (inside : ∀ id ∈ ids, here id) :
    related (SameWithin here) (Evaluation.collect find ids) (Evaluation.collect other ids) := by
  induction ids with
  | nil => exact composes.pure ⟨rfl, inside⟩
  | cons id ids ih =>
      obtain ⟨first, rest⟩ := List.forall_mem_cons.mp inside
      rw [Evaluation.collect, Evaluation.collect]
      apply composes.bind (finds id first)
      rintro found _ ⟨rfl, foundInside⟩
      apply composes.bind (ih rest)
      rintro others _ ⟨rfl, othersInside⟩
      exact composes.pure ⟨rfl, List.forall_mem_append.mpr ⟨foundInside, othersInside⟩⟩

/-! Where values are only like each other if they are the same, unions and steps correspond as soon as
the nodes of two values do. -/

variable {forest later : Forest} {same : Value → Value → Prop}
  (nodes : ∀ (place : NodeSetPlace) {first second : Value}, same first second →
    related (SameWithin here) (requireNodes place first) (requireNodes place second))
  (sorted : ∀ {ids : List NodeId}, (∀ id ∈ ids, here id) →
    same (.nodeSet (NodeSet.inDocumentOrder forest ids))
      (.nodeSet (NodeSet.inDocumentOrder later ids)))
include nodes sorted

theorem unionOf {first second third fourth : Value} (left : same first second)
    (right : same third fourth) :
    related same (Evaluation.unionOf forest first third) (Evaluation.unionOf later second fourth) := by
  apply composes.bind (nodes .union right)
  rintro others _ ⟨rfl, othersInside⟩
  apply composes.bind (nodes .union left)
  rintro ids _ ⟨rfl, inside⟩
  exact composes.pure (sorted (List.forall_mem_append.mpr ⟨inside, othersInside⟩))

theorem step {find : NodeId → Evaluation σ (List NodeId)}
    {other : NodeId → Evaluation τ (List NodeId)} {first second : Value}
    (start : same first second)
    (finds : ∀ id, here id → related (SameWithin here) (find id) (other id)) :
    related (fun found further => same (.nodeSet (NodeSet.inDocumentOrder forest found))
        (.nodeSet (NodeSet.inDocumentOrder later further)))
      (requireNodes .step first >>= Evaluation.collect find)
      (requireNodes .step second >>= Evaluation.collect other) := by
  apply composes.bind (nodes .step start)
  rintro ids _ ⟨rfl, inside⟩
  apply composes.mono (composes.collect finds inside)
  rintro found _ ⟨rfl, foundInside⟩
  exact sorted foundInside

end Composes

end

/-- An evaluation beside another one, of which nothing is asked but that it makes what the first gives
alike to something. -/
theorem keeps_composes (inv : σ → Prop) :
    Composes fun {α β} (alike : α → β → Prop) (left : Evaluation σ α) (_ : Evaluation τ β) =>
      Keeps inv (fun value => ∃ other, alike value other) left where
  pure holds := Keeps.pure ⟨_, holds⟩
  bind first rest := first.bind fun value ⟨other, holds⟩ => rest value other holds

namespace Correspondence

variable {scope : Expr.Scope} {forest later : Forest} {one : Context σ} {other : Context τ}
variable {related : ∀ {α β : Type}, (α → β → Prop) → Evaluation σ α → Evaluation τ β → Prop}
variable {here : NodeId → Prop} {same like : Value → Value → Prop}
variable (corresponds : Correspondence scope forest later one other related here same like)
include corresponds

theorem of_same {expression : Expr} {left : Evaluation σ Value} {right : Evaluation τ Value}
    (given : related same left right) :
    related (fun first second => like first second ∧ (scope.settled expression → same first second))
      left right :=
  corresponds.mono given fun _ _ agree => ⟨corresponds.like_of_same agree, fun _ => agree⟩

theorem number (amount : Float) : same (.number amount) (.number amount) :=
  corresponds.scalar fun _ equal => by cases equal

theorem boolean (truth : Bool) : same (.boolean truth) (.boolean truth) :=
  corresponds.scalar fun _ equal => by cases equal

set_option linter.unusedSectionVars false in
mutual

/-- Two evaluations of an expression of the scope correspond. -/
theorem evalAt (focus : Focus) (within : focus.Within here) (expression : Expr)
    (admitted : scope.expr expression) :
    related (fun first second => like first second ∧ (scope.settled expression → same first second))
      (expression.evalAt forest one focus) (expression.evalAt later other focus) := by
  cases expression with
  | number amount =>
      rw [Expr.evalAt, Expr.evalAt]
      exact corresponds.of_same (corresponds.pure (corresponds.number amount))
  | string text =>
      rw [Expr.evalAt, Expr.evalAt]
      exact corresponds.of_same (corresponds.pure (corresponds.scalar fun _ equal => by cases equal))
  | focus =>
      rw [Expr.evalAt, Expr.evalAt]
      exact corresponds.of_same (corresponds.pure (corresponds.inFocus within))
  | var name =>
      rw [Expr.evalAt, Expr.evalAt]
      exact corresponds.bound admitted
  | call function arguments =>
      rw [Expr.evalAt, Expr.evalAt]
      apply corresponds.of_same
      apply corresponds.bind (evalAll focus within arguments (scope.call admitted))
      intro values others agree
      exact corresponds.called admitted within agree.1 agree.2
  | arithmetic operator left right =>
      obtain ⟨⟨leftSettled, leftAdmitted⟩, rightSettled, rightAdmitted⟩ := scope.arithmetic admitted
      rw [Expr.evalAt, Expr.evalAt]
      apply corresponds.of_same
      apply corresponds.bind (evalAt focus within left leftAdmitted)
      intro first firstOther firstAgree
      apply corresponds.bind (evalAt focus within right rightAdmitted)
      intro second secondOther secondAgree
      rw [corresponds.toNumber_eq (firstAgree.2 leftSettled),
        corresponds.toNumber_eq (secondAgree.2 rightSettled)]
      exact corresponds.pure (corresponds.number _)
  | connective operator left right =>
      obtain ⟨leftAdmitted, rightAdmitted⟩ := scope.connective admitted
      rw [Expr.evalAt, Expr.evalAt]
      apply corresponds.of_same
      apply corresponds.bind (evalAt focus within left leftAdmitted)
      intro first firstOther firstAgree
      rw [corresponds.toBoolean_eq firstAgree.1]
      split
      · exact corresponds.pure (corresponds.boolean _)
      · apply corresponds.bind (evalAt focus within right rightAdmitted)
        intro second secondOther secondAgree
        rw [corresponds.toBoolean_eq secondAgree.1]
        exact corresponds.pure (corresponds.boolean _)
  | comparison operator left right =>
      obtain ⟨leftAdmitted, rightAdmitted⟩ := scope.comparison admitted
      rw [Expr.evalAt, Expr.evalAt]
      apply corresponds.of_same
      apply corresponds.bind (evalAt focus within left leftAdmitted)
      intro first firstOther firstAgree
      apply corresponds.bind (evalAt focus within right rightAdmitted)
      intro second secondOther secondAgree
      rw [corresponds.holds_eq firstAgree.1 secondAgree.1]
      exact corresponds.pure (corresponds.boolean _)
  | negate operand =>
      obtain ⟨operandSettled, operandAdmitted⟩ := scope.negate admitted
      rw [Expr.evalAt, Expr.evalAt]
      apply corresponds.of_same
      apply corresponds.bind (evalAt focus within operand operandAdmitted)
      intro value valueOther agree
      rw [corresponds.toNumber_eq (agree.2 operandSettled)]
      exact corresponds.pure (corresponds.number _)
  | union left right =>
      obtain ⟨leftAdmitted, rightAdmitted⟩ := scope.union admitted
      rw [Expr.evalAt, Expr.evalAt]
      apply corresponds.of_same
      apply corresponds.bind (evalAt focus within left leftAdmitted)
      intro first firstOther firstAgree
      apply corresponds.bind (evalAt focus within right rightAdmitted)
      intro second secondOther secondAgree
      exact corresponds.united firstAgree.1 secondAgree.1
  | rootPath steps =>
      rw [Expr.evalAt, Expr.evalAt]
      apply corresponds.of_same
      apply corresponds.bind (corresponds.rooted admitted within)
      intro start startOther agree
      exact follow steps (scope.rootPath admitted) (corresponds.like_of_same agree) fun _ => agree
  | focusPath steps =>
      have start := corresponds.inFocus within
      rw [Expr.evalAt, Expr.evalAt]
      apply corresponds.of_same
      exact follow steps (scope.focusPath admitted) (corresponds.like_of_same start) fun _ => start
  | exprPath start steps =>
      obtain ⟨settled, startAdmitted, stepsAdmitted⟩ := scope.exprPath admitted
      rw [Expr.evalAt, Expr.evalAt]
      apply corresponds.of_same
      apply corresponds.bind (evalAt focus within start startAdmitted)
      intro value valueOther agree
      exact follow steps stepsAdmitted agree.1 fun none => agree.2 (settled none)
  | filter primary predicates =>
      obtain ⟨⟨settled, primaryAdmitted⟩, predicatesAdmitted⟩ := scope.filter admitted
      rw [Expr.evalAt, Expr.evalAt]
      apply corresponds.of_same
      apply corresponds.bind (evalAt focus within primary primaryAdmitted)
      intro value valueOther agree
      apply corresponds.bind (corresponds.filtered (agree.2 settled))
      rintro nodes _ ⟨rfl, inside⟩
      apply corresponds.bind (keptBy predicates predicatesAdmitted inside)
      rintro kept _ ⟨rfl, keptInside⟩
      exact corresponds.pure (corresponds.sorted keptInside)

theorem evalAll (focus : Focus) (within : focus.Within here) (expressions : List Expr)
    (admitted : scope.all expressions) :
    related (fun values others => List.Forall₂ like values others ∧
        ((∀ expression ∈ expressions, scope.settled expression) → List.Forall₂ same values others))
      (Expr.evalAll forest one focus expressions) (Expr.evalAll later other focus expressions) := by
  match expressions with
  | [] =>
      rw [Expr.evalAll, Expr.evalAll]
      exact corresponds.pure ⟨.nil, fun _ => .nil⟩
  | expression :: expressions =>
      obtain ⟨firstAdmitted, othersAdmitted⟩ := scope.cons admitted
      rw [Expr.evalAll, Expr.evalAll]
      apply corresponds.bind (evalAt focus within expression firstAdmitted)
      intro value valueOther agree
      apply corresponds.bind (evalAll focus within expressions othersAdmitted)
      intro values others allAgree
      apply corresponds.pure
      refine ⟨.cons agree.1 allAgree.1, fun settled => ?_⟩
      obtain ⟨firstSettled, othersSettled⟩ := List.forall_mem_cons.mp settled
      exact .cons (agree.2 firstSettled) (allAgree.2 othersSettled)

theorem follow (steps : List Step) (admitted : scope.steps steps) {start startOther : Value}
    (alike : like start startOther) (settled : steps = [] → same start startOther) :
    related same (Expr.follow forest one steps start) (Expr.follow later other steps startOther) := by
  match steps with
  | [] =>
      rw [Expr.follow, Expr.follow]
      exact corresponds.pure (settled rfl)
  | .mk axis test predicates :: steps =>
      obtain ⟨predicatesAdmitted, stepsAdmitted⟩ := scope.step admitted
      rw [Expr.follow, Expr.follow, ← bind_assoc, ← bind_assoc]
      apply corresponds.bind (corresponds.stepped admitted alike fun id inside => ?_)
      · intro found further agree
        exact follow steps stepsAdmitted (corresponds.like_of_same agree) fun _ => agree
      · obtain ⟨sameCandidates, candidatesInside⟩ := corresponds.candidates admitted inside
        rw [← sameCandidates]
        exact keptBy predicates predicatesAdmitted candidatesInside

theorem keptBy (predicates : List Expr) (admitted : scope.all predicates) {nodes : List NodeId}
    (inside : ∀ id ∈ nodes, here id) :
    related (SameWithin here) (Expr.keptBy forest one predicates nodes)
      (Expr.keptBy later other predicates nodes) := by
  match predicates with
  | [] =>
      rw [Expr.keptBy, Expr.keptBy]
      exact corresponds.pure ⟨rfl, inside⟩
  | predicate :: predicates =>
      obtain ⟨firstAdmitted, othersAdmitted⟩ := scope.cons admitted
      rw [Expr.keptBy, Expr.keptBy]
      apply corresponds.bind (corresponds.keepWhere (fun focus within => ?_) inside nodes.length 1)
      · rintro kept _ ⟨rfl, keptInside⟩
        exact keptBy predicates othersAdmitted keptInside
      · apply corresponds.bind (evalAt focus within predicate firstAdmitted)
        intro value valueOther agree
        rw [corresponds.keeps_eq agree.1]
        exact corresponds.pure rfl

end

end Correspondence

end Evaluation

end NodeQuery

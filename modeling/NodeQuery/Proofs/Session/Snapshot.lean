import NodeQuery.Proofs.Forest.Decorations
import NodeQuery.Proofs.Handler.Decoration
import NodeQuery.Proofs.Session.Steps

/-!
# Decorations as snapshots

A node-set is decorated with what its document has registered at that moment.  The decorations of a
document only grow at their end, so in every later session what the node-set carries is still the
beginning of the registrations of its document, and under each name it runs the last operation among
those.  What a node-set responds to, its document therefore responds to as long as it is open.
-/

namespace NodeQuery

variable {σ : Type}

/-- The decorations of a node-set, if it has any, are the first ones of the document it names. -/
def NodeSet.IsSnapshot (set : NodeSet) (forest : Forest) : Prop :=
  ∀ decorations, set.decorations = some decorations →
    ∃ document, set.document = some document ∧ decorations <+: forest.decorations document

/-- A value that is no node-set, or one with the first decorations of the document it names. -/
def Value.IsSnapshot (forest : Forest) (value : Value) : Prop :=
  ∀ set, value = .nodeSet set → set.IsSnapshot forest

namespace NodeSet

variable {forest : Forest}

theorem isSnapshot_of_bare {set : NodeSet} (bare : set.decorations = none) :
    set.IsSnapshot forest := by
  intro decorations carried
  rw [bare] at carried
  cases carried

/-- Decorating leaves a node-set as it is or gives it all decorations of a document. -/
theorem IsSnapshot.decorate {set : NodeSet} (snapshot : set.IsSnapshot forest)
    (fallback : Option DocumentId) : (set.decorate forest fallback).IsSnapshot forest := by
  rw [NodeSet.decorate]
  split
  · exact snapshot
  · split
    · exact snapshot
    · rename_i document _
      rintro _ ⟨rfl⟩
      exact ⟨document, rfl, List.prefix_rfl⟩

/-- A node-set made of snapshots is one. -/
theorem MadeFrom.isSnapshot {given : NodeSet → Prop}
    (snapshots : ∀ set, given set → set.IsSnapshot forest) {set : NodeSet}
    (made : set.MadeFrom forest given) : set.IsSnapshot forest := by
  induction made with
  | given member => exact snapshots _ member
  | bare undecorated => exact isSnapshot_of_bare undecorated
  | decorated _ fallback ih => exact ih.decorate fallback

theorem IsSnapshot.mono {later : Forest}
    (grown : ∀ document, forest.decorations document <+: later.decorations document) {set : NodeSet}
    (snapshot : set.IsSnapshot forest) : set.IsSnapshot later := by
  intro decorations carried
  rcases snapshot decorations carried with ⟨document, names, first⟩
  exact ⟨document, names, first.trans (grown document)⟩

end NodeSet

theorem Value.isSnapshot_of_bare {forest : Forest} {value : Value} (bare : value.Bare) :
    value.IsSnapshot forest := by
  rintro set rfl
  exact NodeSet.isSnapshot_of_bare bare

theorem Value.decorable_isSnapshot (forest : Forest) (document : Option DocumentId) :
    Value.Decorable forest document (Value.IsSnapshot forest) where
  bare _ := Value.isSnapshot_of_bare
  decorated value snapshot := by
    intro set decorated
    cases value with
    | nodeSet before =>
        cases decorated
        exact (snapshot before rfl).decorate document
    | boolean truth => cases decorated
    | number amount => cases decorated
    | string text => cases decorated

/-- In a context made of snapshots every value of an evaluation is one. -/
theorem Context.upholds_isSnapshot {forest : Forest} {given : NodeSet → Prop} {context : Context σ}
    (snapshots : ∀ set, given set → set.IsSnapshot forest)
    (bindings : ∀ name value, context.binding? name = some value → value.MadeFrom forest given)
    (functions : context.functions.MakesFrom forest given) :
    context.Upholds forest (Value.IsSnapshot forest) where
  toDecorable := Value.decorable_isSnapshot forest _
  bound name value bound set equal := (bindings name value bound set equal).isSnapshot snapshots
  computed name count body resolved site arguments value among computed set equal := by
    apply (functions name count body resolved site arguments value computed set equal).isSnapshot
    rintro other (member | listed)
    · exact snapshots other member
    · exact among _ listed other rfl

/-- The core functions give node-sets without decorations. -/
theorem Registry.core_makesFrom (forest : Forest) (given : NodeSet → Prop) :
    core.MakesFrom forest given := by
  rintro name count body resolved site arguments _ computed set rfl
  exact .bare (core_bare resolved computed)

namespace Evaluation

variable {forest : Forest} {document : Option DocumentId}

/-- What a step hands out are snapshots if its handler is given snapshots and its value is one. -/
theorem isSnapshot_of_mem_setsHanded {step : Evaluation (σ × List (Handler.Request σ)) Value}
    (keeps : Keeps (Handler.GivenSoFar forest document (Value.IsSnapshot forest))
      (Value.IsSnapshot forest) step) (state : σ) :
    ∀ set ∈ setsHanded step state, set.IsSnapshot forest := by
  rcases keeps (state, []) fun _ member => absurd member List.not_mem_nil with ⟨arguments, results⟩
  intro set member
  rcases List.mem_append.mp member with ofHandler | ofStep
  · rcases List.mem_flatMap.mp ofHandler with ⟨request, noted, among⟩
    rcases List.mem_filterMap.mp among with ⟨argument, listed, isSet⟩
    rcases arguments request noted argument listed with ⟨value, snapshot, same⟩
    have decorated := (Value.decorable_isSnapshot forest document).decorated value snapshot
    apply decorated set
    rw [Handler.argument] at same
    cases handed : value.decorate forest document with
    | nodeSet other => rw [same, handed] at isSet; cases isSet; rfl
    | boolean truth => rw [same, handed] at isSet; cases isSet
    | number amount => rw [same, handed] at isSet; cases isSet
    | string text => rw [same, handed] at isSet; cases isSet
  · rcases Option.bind_eq_some_iff.mp (Option.mem_toList.mp ofStep) with ⟨value, given, isSet⟩
    have snapshot : value.IsSnapshot forest := by
      apply results value
      cases outcome : (step (state, [])).1 with
      | error error => rw [outcome] at given; cases given
      | ok other => rw [outcome] at given; cases given; rfl
    apply snapshot set
    cases value with
    | nodeSet other => cases isSet; rfl
    | boolean truth => cases isSet
    | number amount => cases isSet
    | string text => cases isSet

end Evaluation

namespace Context.Upholds

variable {forest : Forest} {context : Context σ}
  (upholds : context.Upholds forest (Value.IsSnapshot forest))
include upholds

/-- A compiled expression hands out snapshots. -/
theorem keeps_compiled {text : String} {program : Program}
    (compiled : Program.compile text = .ok program) :
    Evaluation.Keeps
      (Handler.GivenSoFar forest (context.document? forest) (Value.IsSnapshot forest))
      (Value.IsSnapshot forest) (program.run forest context.noting) := by
  unfold Program.compile at compiled
  cases parsed : Expr.parse? text with
  | none => rw [parsed] at compiled; cases compiled
  | some expression =>
      rw [parsed] at compiled
      cases compiled
      apply (upholds.handed expression text).mono
      rintro _ ⟨value, snapshot, rfl⟩
      exact upholds.decorated value snapshot

theorem keeps_evaluate (text : String) :
    Evaluation.Keeps
      (Handler.GivenSoFar forest (context.document? forest) (Value.IsSnapshot forest))
      (Value.IsSnapshot forest) (Query.evaluate forest text context.noting) := by
  unfold Query.evaluate
  cases compiled : Program.compile text with
  | error error => exact Evaluation.Keeps.throw _
  | ok program => exact upholds.keeps_compiled compiled

end Context.Upholds

/-- A selection hands out snapshots. -/
theorem Query.select_keeps (forest : Forest) (selector : String) (node : NodeId)
    (handler : Option (Handler σ)) :
    Evaluation.Keeps
      (Handler.GivenSoFar forest (forest.document? node) (Value.IsSnapshot forest))
      (fun set => set.IsSnapshot forest)
      (select forest selector node (handler.map Handler.noting)) := by
  let context : Context σ := { node := some node, handler := handler }
  have noSets : ∀ set : NodeSet, False → set.IsSnapshot forest :=
    fun _ impossible => impossible.elim
  have upholds : context.Upholds forest (Value.IsSnapshot forest) :=
    Context.upholds_isSnapshot noSets (fun _ _ impossible => by cases impossible)
      (Registry.core_makesFrom forest _)
  unfold select
  cases selectorPath ".//" selector with
  | error error => exact Evaluation.Keeps.throw _
  | ok path =>
      apply Evaluation.Keeps.bind (upholds.keeps_evaluate path)
      intro value snapshot
      cases value with
      | nodeSet set => exact Evaluation.Keeps.pure (snapshot set rfl)
      | boolean truth => exact Evaluation.Keeps.throw _
      | number amount => exact Evaluation.Keeps.throw _
      | string text => exact Evaluation.Keeps.throw _

end NodeQuery

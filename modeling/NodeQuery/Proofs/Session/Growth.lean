import NodeQuery.Proofs.Forest.Steps
import NodeQuery.Proofs.Session.Steps

/-!
# How sessions change their forest

Whatever its user does, a session changes its forest in steps of a forest.  So what holds of every forest
that such steps lead to holds of the forest of every session.
-/

namespace NodeQuery

namespace Workspace

/-- The forest of a workspace is one that steps lead to, and labels stand for stored nodes. -/
structure GrownInSteps (workspace : Workspace) : Prop where
  reached : Forest.Reaches {} workspace.forest
  labels : ∀ entry ∈ workspace.labels, entry.2.index < workspace.forest.nodes.size

namespace GrownInSteps

variable {workspace later : Workspace} (grown : workspace.GrownInSteps)
include grown

/-- More steps of the forest, and no more labels. -/
theorem more (reaches : Forest.Reaches workspace.forest later.forest)
    (fewer : later.labels ⊆ workspace.labels) : later.GrownInSteps where
  reached := grown.reached.trans reaches
  labels entry member := Nat.lt_of_lt_of_le (grown.labels entry (fewer member)) reaches.size_le

/-- Planting a draft leads to a workspace grown in steps, which stores the planted node. -/
theorem plant {draft : Draft} {id : NodeId} (plants : workspace.plant draft = some (later, id)) :
    later.GrownInSteps ∧ id.index < later.forest.nodes.size := by
  simp only [Workspace.plant, Option.bind_eq_bind, Option.pure_def, Option.bind_eq_some_iff]
    at plants
  obtain ⟨⟨planting, planted⟩, found, rest⟩ := plants
  obtain ⟨rfl, rfl⟩ := Prod.mk.inj (Option.some.inj rest)
  have labels : Planting.LabelsStored { forest := workspace.forest, labels := workspace.labels } :=
    grown.labels
  have inSteps := Planting.plant_inSteps draft labels found
  exact ⟨⟨grown.reached.trans inSteps.reaches, inSteps.labels⟩,
    inSteps.stored planted List.mem_cons_self⟩

theorem addTree {name : String} {draft : Draft} {id : NodeId}
    (plants : workspace.addTree name draft = some (later, id)) : later.GrownInSteps := by
  simp only [Workspace.addTree, Option.bind_eq_bind, Option.pure_def, Option.bind_eq_some_iff]
    at plants
  obtain ⟨⟨middle, planted⟩, found, rest⟩ := plants
  obtain ⟨rfl, rfl⟩ := Prod.mk.inj (Option.some.inj rest)
  exact (grown.plant found).1.more .refl (List.Subset.refl _)

theorem closeNamed (name : String) : (workspace.closeNamed name).GrownInSteps := by
  rw [Workspace.closeNamed]
  split
  · exact grown
  · exact grown.more (.single (.closed _)) (List.Subset.refl _)

theorem openDocument {name : String} {draft : Draft} {document : DocumentId}
    (opens : workspace.openDocument name draft = some (later, document)) : later.GrownInSteps := by
  simp only [Workspace.openDocument, Option.bind_eq_bind, Option.pure_def, Option.bind_eq_some_iff]
    at opens
  obtain ⟨⟨middle, planted⟩, found, rest⟩ := opens
  obtain ⟨rfl, rfl⟩ := Prod.mk.inj (Option.some.inj rest)
  have opened : ({ middle with forest := (middle.forest.openDocument planted).1 } :
      Workspace).GrownInSteps :=
    (grown.plant found).1.more (.single (.opened (grown.plant found).2)) (List.Subset.refl _)
  exact (opened.closeNamed name).more .refl (List.Subset.refl _)

theorem drop (name : String) : (workspace.drop name).GrownInSteps :=
  (grown.closeNamed name).more .refl (List.nil_subset _)

end GrownInSteps

end Workspace

namespace Session

theorem Next.grownInSteps {session later : Session} (next : session.Next later)
    (grown : session.workspace.GrownInSteps) : later.workspace.GrownInSteps := by
  cases next with
  | opened name draft opens => exact grown.openDocument opens
  | planted name draft plants => exact grown.addTree plants
  | dropped name => exact grown.drop name
  | settled others => exact grown.more (.single (.forgotten _)) (List.Subset.refl _)
  | registered entry isOpen => exact grown.more (.single (.decorated _ _)) (List.Subset.refl _)
  | saved held name => exact grown.more .refl (List.Subset.refl _)
  -- Nothing else touches the workspace.
  | made | evaluated | selected | invoked | decorated => exact grown

/-- The forest of every session is one that steps lead to. -/
theorem Reaches.forest_reached {session : Session} (reached : Reaches {} session) :
    Forest.Reaches {} session.forest := by
  have grown : session.workspace.GrownInSteps := by
    induction reached with
    | refl => exact ⟨.refl, fun _ member => absurd member List.not_mem_nil⟩
    | tail _ next grown => exact next.grownInSteps grown
  exact grown.reached

end Session

end NodeQuery

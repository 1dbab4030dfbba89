import NodeQuery.Workspace
import NodeQuery.Proofs.Forest.Document

/-!
# Decorations of documents

The decorations of a document change in one way only: when a decoration is registered on it, which
puts it after the others.  Planting, opening and closing documents and forgetting nodes leave the
decorations of every document as they are, those of closed documents included.
-/

namespace NodeQuery

namespace Forest

variable (forest : Forest)

/-- Decorations are read off the documents alone. -/
theorem decorations_congr {first second : Forest} (same : second.documents = first.documents)
    (document : DocumentId) : second.decorations document = first.decorations document := by
  rw [decorations, decorations, same]

theorem documents_foldl_adopt (parent : NodeId) (held : List NodeId) :
    (held.foldl (fun grown id => grown.adopt parent id) forest).documents = forest.documents := by
  induction held generalizing forest with
  | nil => rfl
  | cons first others ih => rw [List.foldl_cons, ih, adopt, modify]

theorem documents_add (node : Node) : (forest.add node).1.documents = forest.documents := by
  rw [add, documents_foldl_adopt]

end Forest

namespace Planting

theorem documents_add (planting : Planting) (node : Node) :
    (planting.add node).1.forest.documents = planting.forest.documents :=
  planting.forest.documents_add node

mutual

/-- Planting a draft opens no document. -/
theorem documents_plant (draft : Draft) {start planted : Planting} {id : NodeId}
    (done : start.plant draft = some (planted, id)) :
    planted.forest.documents = start.forest.documents := by
  cases draft with
  | text value => cases done; exact documents_add start _
  | comment value => cases done; exact documents_add start _
  | «attribute» name value => cases done; exact documents_add start _
  | element _ attributes children | document attributes children =>
      rw [plant] at done
      rcases Option.bind_eq_some_iff.mp done with ⟨⟨middle, held⟩, first, done⟩
      rcases Option.bind_eq_some_iff.mp done with ⟨⟨last, below⟩, second, done⟩
      cases done
      apply (documents_add last _).trans
      rw [documents_plantAll children second, documents_plantAll attributes first]
  | labelled name draft =>
      rw [plant] at done
      rcases Option.bind_eq_some_iff.mp done with ⟨⟨last, labelled⟩, first, done⟩
      cases done
      change last.forest.documents = start.forest.documents
      exact documents_plant draft first
  | reference name =>
      rw [plant] at done
      rcases Option.bind_eq_some_iff.mp done with ⟨found, _, done⟩
      cases done
      rfl

theorem documents_plantAll (drafts : List Draft) {start planted : Planting} {ids : List NodeId}
    (done : start.plantAll drafts = some (planted, ids)) :
    planted.forest.documents = start.forest.documents := by
  cases drafts with
  | nil => cases done; rfl
  | cons draft drafts =>
      rw [plantAll] at done
      rcases Option.bind_eq_some_iff.mp done with ⟨⟨middle, id⟩, first, done⟩
      rcases Option.bind_eq_some_iff.mp done with ⟨⟨last, others⟩, second, done⟩
      cases done
      rw [documents_plantAll drafts second, documents_plant draft first]

end

end Planting

namespace Forest

variable (forest : Forest)

/-- A document that has just been opened has no decorations, and others keep theirs. -/
theorem decorations_openDocument (id : NodeId) (document : DocumentId) :
    (forest.openDocument id).1.decorations document = forest.decorations document := by
  have same : (forest.underDocumentNode id).1.documents = forest.documents := by
    rw [underDocumentNode]
    split
    · rfl
    · exact documents_add forest _
  have pushed : (forest.openDocument id).1.documents =
      forest.documents.push { root := (forest.underDocumentNode id).2 } := by
    rw [documents_openDocument, registered, same]
  rw [decorations, decorations, pushed, Array.getElem?_push]
  split
  · rename_i latest
    rw [latest, Array.getElem?_eq_none (Nat.le_refl _)]
    rfl
  · rfl

theorem decorations_closeDocument (closed document : DocumentId) :
    (forest.closeDocument closed).decorations document = forest.decorations document := by
  rw [decorations, decorations, closeDocument, Array.getElem?_modify]
  split
  · rw [Option.map_map]
    rfl
  · rfl

/-- Registering a decoration puts it after those of its document, which has to be there. -/
theorem decorations_decorate {document : DocumentId} (isOpen : forest.isOpen document = true)
    (decoration : Decoration) (other : DocumentId) :
    (forest.decorate document decoration).decorations other =
      if other = document then forest.decorations document ++ [decoration]
      else forest.decorations other := by
  rw [decorations, decorate, Array.getElem?_modify]
  by_cases same : other = document
  · subst same
    rw [if_pos rfl, if_pos rfl, decorations]
    cases stored : forest.documents[other.index]? with
    | none =>
        rw [Forest.isOpen, stored] at isOpen
        cases isOpen
    | some entry => rfl
  · have apart : ¬ document.index = other.index := fun equal =>
      same (congrArg DocumentId.mk equal).symm
    rw [if_neg apart, if_neg same]
    rfl

end Forest

namespace Workspace

/-- What most steps leave of a workspace: the decorations of all documents, the operations, and the
node-sets that are kept. -/
structure KeepsDecorations (before after : Workspace) : Prop where
  decorations : ∀ document, after.forest.decorations document = before.forest.decorations document
  operations : after.operations = before.operations
  sets : after.sets = before.sets

theorem KeepsDecorations.trans {first second third : Workspace} (before : first.KeepsDecorations second)
    (after : second.KeepsDecorations third) : first.KeepsDecorations third where
  decorations document := (after.decorations document).trans (before.decorations document)
  operations := after.operations.trans before.operations
  sets := after.sets.trans before.sets

variable {workspace after : Workspace}

theorem keepsDecorations_plant {draft : Draft} {id : NodeId}
    (done : workspace.plant draft = some (after, id)) : workspace.KeepsDecorations after := by
  rw [plant] at done
  rcases Option.bind_eq_some_iff.mp done with ⟨⟨planting, root⟩, planted, done⟩
  cases done
  exact ⟨Forest.decorations_congr (Planting.documents_plant draft planted), rfl, rfl⟩

theorem keepsDecorations_addTree {name : String} {draft : Draft} {id : NodeId}
    (done : workspace.addTree name draft = some (after, id)) : workspace.KeepsDecorations after := by
  rw [addTree] at done
  rcases Option.bind_eq_some_iff.mp done with ⟨⟨planted, root⟩, plants, done⟩
  cases done
  have kept := keepsDecorations_plant plants
  exact ⟨kept.decorations, kept.operations, kept.sets⟩

theorem keepsDecorations_closeNamed (workspace : Workspace) (name : String) :
    workspace.KeepsDecorations (workspace.closeNamed name) := by
  rw [closeNamed]
  split
  · exact ⟨fun _ => rfl, rfl, rfl⟩
  · exact ⟨workspace.forest.decorations_closeDocument _, rfl, rfl⟩

theorem keepsDecorations_openDocument {name : String} {draft : Draft} {document : DocumentId}
    (done : workspace.openDocument name draft = some (after, document)) :
    workspace.KeepsDecorations after := by
  rw [openDocument] at done
  rcases Option.bind_eq_some_iff.mp done with ⟨⟨planted, root⟩, plants, done⟩
  cases done
  have opened : planted.KeepsDecorations { planted with forest := (planted.forest.openDocument root).1 } :=
    ⟨planted.forest.decorations_openDocument root, rfl, rfl⟩
  have kept := ((keepsDecorations_plant plants).trans opened).trans
    (keepsDecorations_closeNamed _ name)
  exact ⟨kept.decorations, kept.operations, kept.sets⟩

theorem keepsDecorations_drop (workspace : Workspace) (name : String) :
    workspace.KeepsDecorations (workspace.drop name) := by
  have kept := keepsDecorations_closeNamed workspace name
  exact ⟨kept.decorations, kept.operations, kept.sets⟩

theorem keepsDecorations_settle (workspace : Workspace) (others : List NodeId) :
    workspace.KeepsDecorations (workspace.settle others) :=
  ⟨fun _ => rfl, rfl, rfl⟩

end Workspace

end NodeQuery

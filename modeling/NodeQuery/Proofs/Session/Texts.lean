import NodeQuery.Proofs.Forest.Sibling
import NodeQuery.Proofs.Forest.Texts
import NodeQuery.Proofs.Session.Steps

/-!
# Texts in sessions

Whatever its user does, the forest of a session keeps its shape: drafts bring nothing but elements,
documents and leaves, and no other step changes what a node is or holds.  So in every session the walk
over a stack, the recursion over children and the string-value of a node agree on what is below it, be the
tree a document, one that was dropped or none at all, and be a node held once or many times.
-/

namespace NodeQuery

namespace Workspace

variable {workspace later : Workspace} (shaped : workspace.forest.IsShaped)
include shaped

theorem plant_isShaped {draft : Draft} {id : NodeId}
    (plants : workspace.plant draft = some (later, id)) : later.forest.IsShaped := by
  rw [plant] at plants
  rcases Option.bind_eq_some_iff.mp plants with ⟨⟨planting, root⟩, planted, plants⟩
  cases plants
  have start : ({ forest := workspace.forest, labels := workspace.labels } : Planting).forest.IsShaped :=
    shaped
  exact Planting.plant_isShaped draft start planted

theorem addTree_isShaped {name : String} {draft : Draft} {id : NodeId}
    (plants : workspace.addTree name draft = some (later, id)) : later.forest.IsShaped := by
  rw [addTree] at plants
  rcases Option.bind_eq_some_iff.mp plants with ⟨⟨planted, root⟩, done, plants⟩
  cases plants
  have before : planted.forest.IsShaped := plant_isShaped shaped done
  exact before

theorem closeNamed_isShaped (name : String) : (workspace.closeNamed name).forest.IsShaped := by
  rw [closeNamed]
  split
  · exact shaped
  · exact shaped

theorem openDocument_isShaped {name : String} {draft : Draft} {document : DocumentId}
    (opens : workspace.openDocument name draft = some (later, document)) : later.forest.IsShaped := by
  rw [openDocument] at opens
  rcases Option.bind_eq_some_iff.mp opens with ⟨⟨planted, root⟩, done, opens⟩
  cases opens
  have opened : ({ planted with forest := (planted.forest.openDocument root).1 } :
      Workspace).forest.IsShaped :=
    (plant_isShaped shaped done).openDocument root
  exact closeNamed_isShaped opened name

end Workspace

namespace Session

theorem Next.isShaped {session later : Session} (next : session.Next later)
    (shaped : session.forest.IsShaped) : later.forest.IsShaped := by
  cases next with
  | opened name draft opens => exact Workspace.openDocument_isShaped shaped opens
  | planted name draft plants => exact Workspace.addTree_isShaped shaped plants
  | dropped name => exact Workspace.closeNamed_isShaped shaped name
  | settled others => exact shaped.retain _
  -- Registering decorations and saving node-sets leave all nodes as they are, and so does all else.
  | registered | saved | made | evaluated | selected | invoked | decorated => exact shaped

/-- In every session nothing but elements, documents and leaves is stored. -/
theorem Reaches.isShaped {session : Session} (reached : Reaches {} session) :
    session.forest.IsShaped := by
  induction reached with
  | refl => exact Forest.IsShaped.empty
  | tail _ next shaped => exact next.isShaped shaped

/-- In a tree of a session that has documents at most on top, take an element or a document.  The walk
over a stack lists its subtree as the recursion over children does.  The texts listed there, which are
those that the step to descendant texts finds before it sorts them, all have content, and their contents
joined in that order are the string-value. -/
theorem walkDown_spells_stringValue {session : Session} (reached : Reaches {} session)
    {top id : NodeId}
    (onTop : ∀ below ∈ session.forest.descendants top, session.forest.kind below ≠ .document)
    (inside : id ∈ session.forest.subtree top)
    (kind : session.forest.kind id = .element ∨ session.forest.kind id = .document) :
    session.forest.walkDown true id = session.forest.subtree id ∧
      Evaluation.candidates session.forest .descendant .text id =
        (session.forest.subtree id).filter session.forest.isText ∧
      ∃ texts : List String,
        ((session.forest.subtree id).filter session.forest.isText).map session.forest.value? =
          texts.map some ∧
        session.forest.stringValue id = String.join texts := by
  have shaped := reached.isShaped
  have stored := Forest.lt_size_of_kind kind
  have plain : ∀ below ∈ session.forest.descendants id, session.forest.kind below ≠ .document :=
    fun below under => onTop below (Forest.descendants_trans inside under)
  have walked : session.forest.walkDown true id = session.forest.subtree id := by
    rw [Forest.walkDown_true]
  exact ⟨walked, Forest.candidates_text kind, _, shaped.map_value?_texts stored,
    shaped.stringValue_eq kind plain⟩

/-- Texts around a comment, with an element in between and, once more, behind them. -/
def mixedDraft : Draft :=
  .document [] [.comment "before",
    .element "p" [.attribute "class" "mixed"]
      [.text "a", .comment "skipped", .labelled "bold" (.element "b" [] [.text "b"]), .text "c",
        .reference "bold"]]

def mixedSession : Session :=
  Session.inWorkspace {} (((({} : Workspace).openDocument "mixed" mixedDraft).map (·.1)).getD {})

theorem walkDown_spells_stringValue_mixed :
    Reaches {} mixedSession ∧
      (∀ below ∈ mixedSession.forest.descendants ⟨8⟩, mixedSession.forest.kind below ≠ .document) ∧
      (⟨7⟩ : NodeId) ∈ mixedSession.forest.subtree ⟨8⟩ ∧
      (mixedSession.forest.kind ⟨7⟩ = .element ∨ mixedSession.forest.kind ⟨7⟩ = .document) ∧
      mixedSession.forest.walkDown true ⟨7⟩ = [⟨7⟩, ⟨2⟩, ⟨3⟩, ⟨5⟩, ⟨4⟩, ⟨6⟩, ⟨5⟩, ⟨4⟩] ∧
      mixedSession.forest.stringValue ⟨7⟩ = "abcb" := by
  have reached : Reaches {} mixedSession := .single (.opened "mixed" mixedDraft rfl)
  have onTop : ∀ below ∈ mixedSession.forest.descendants ⟨8⟩,
      mixedSession.forest.kind below ≠ .document := by decide +kernel
  have inside : (⟨7⟩ : NodeId) ∈ mixedSession.forest.subtree ⟨8⟩ := by decide +kernel
  have kind : mixedSession.forest.kind ⟨7⟩ = .element ∨ mixedSession.forest.kind ⟨7⟩ = .document := by
    decide +kernel
  rcases walkDown_spells_stringValue reached onTop inside kind with ⟨walked, _, texts, found, joined⟩
  have listed : ((mixedSession.forest.subtree ⟨7⟩).filter mixedSession.forest.isText).map
      mixedSession.forest.value? = ["a", "b", "c", "b"].map some := by decide +kernel
  have same : texts = ["a", "b", "c", "b"] :=
    List.map_injective_iff.mpr (Option.some_injective _) (found.symm.trans listed)
  refine ⟨reached, onTop, inside, kind, ?_, ?_⟩
  · rw [walked]
    decide +kernel
  · rw [joined, same]
    decide

end Session

end NodeQuery

import Mathlib.Computability.StateTransition
import NodeQuery.Function.Core
import NodeQuery.Proofs.Forest.Axis
import NodeQuery.Proofs.Forest.Steps

/-!
# Walks through a forest

Walks follow the links as they are stored and do not remember where they have been.  A walk upwards goes
from parent to parent as long as there is one alive.  A walk downwards is either a loop over a stack,
which puts the children of a visited node on top, or a recursion with a call for every child.  Each of
them is run here step by step, until no step is left.  In a forest that steps lead to all of them come
to an end at every node, however often a node is held, and end with what the accessors give.
-/

namespace NodeQuery

namespace Forest

/-!
## Loops and recursions

A visit of a node changes a state and says which nodes come next.  What it comes to after some nodes is
one relation, and a loop and a recursion both end with it.
-/

section
variable {σ : Type}

/-- What is done at a node: a state is changed, and some nodes are to be visited before all others. -/
abbrev Visit (σ : Type) : Type := σ → NodeId → σ × List NodeId

/-- One turn of a loop: the node on top of the stack is visited, and what it adds goes on top. -/
def turn (visit : Visit σ) : σ × List NodeId → Option (σ × List NodeId)
  | (_, []) => none
  | (state, id :: rest) => some ((visit state id).1, (visit state id).2 ++ rest)

/-- One step of a recursion: the innermost call visits its next node and makes a call for what that adds,
or else returns. -/
def call (visit : Visit σ) : σ × List (List NodeId) → Option (σ × List (List NodeId))
  | (_, []) => none
  | (state, [] :: callers) => some (state, callers)
  | (state, (id :: rest) :: callers) =>
    some ((visit state id).1, (visit state id).2 :: rest :: callers)

/-- The state after nodes were visited, each of them with all that its visit adds. -/
inductive Visited (visit : Visit σ) : σ → List NodeId → σ → Prop
  | nil (state : σ) : Visited visit state [] state
  | cons {state middle final : σ} {id : NodeId} {rest : List NodeId}
      (below : Visited visit (visit state id).1 (visit state id).2 middle)
      (others : Visited visit middle rest final) : Visited visit state (id :: rest) final

namespace Visited

variable {visit : Visit σ} {state final : σ} {ids : List NodeId}

theorem reaches_turn (visited : Visited visit state ids final) (rest : List NodeId) :
    StateTransition.Reaches (turn visit) (state, ids ++ rest) (final, rest) := by
  induction visited generalizing rest with
  | nil state => exact .refl
  | @cons state middle final id others _ _ below after =>
      exact .head rfl ((below (others ++ rest)).trans (after rest))

/-- A loop over a stack ends as soon as all of it has been visited. -/
theorem mem_eval_turn (visited : Visited visit state ids final) :
    (final, []) ∈ StateTransition.eval (turn visit) (state, ids) := by
  have ends := visited.reaches_turn []
  rw [List.append_nil] at ends
  exact StateTransition.mem_eval.mpr ⟨ends, rfl⟩

theorem reaches_call (visited : Visited visit state ids final) (callers : List (List NodeId)) :
    StateTransition.Reaches (call visit) (state, ids :: callers) (final, callers) := by
  induction visited generalizing callers with
  | nil state => exact .single rfl
  | @cons state middle final id others _ _ below after =>
      exact .head rfl ((below (others :: callers)).trans (after callers))

/-- A recursion ends as soon as its outermost call has visited all its nodes. -/
theorem mem_eval_call (visited : Visited visit state ids final) :
    (final, []) ∈ StateTransition.eval (call visit) (state, [ids]) :=
  StateTransition.mem_eval.mpr ⟨visited.reaches_call [], rfl⟩

end Visited

/-- Visits that only add older nodes, as long as the state is admitted, and what they come to at each
node. -/
structure Descends (visit : Visit σ) (outcome : σ → NodeId → σ) (admits : σ → Prop) : Prop where
  keeps : ∀ state id, admits state → admits (visit state id).1
  older : ∀ state id, admits state → ∀ below ∈ (visit state id).2, below.index < id.index
  unfolds : ∀ state id, admits state →
    outcome state id = (visit state id).2.foldl outcome (visit state id).1

namespace Descends

variable {visit : Visit σ} {outcome : σ → NodeId → σ} {admits : σ → Prop}

/-- Nodes are visited one after the other if each of them can be visited in any admitted state. -/
theorem visited_of_each {ids : List NodeId}
    (each : ∀ id ∈ ids, ∀ state, admits state →
      Visited visit (visit state id).1 (visit state id).2 (outcome state id) ∧
        admits (outcome state id)) {state : σ} (admitted : admits state) :
    Visited visit state ids (ids.foldl outcome state) ∧ admits (ids.foldl outcome state) := by
  induction ids generalizing state with
  | nil => exact ⟨.nil state, admitted⟩
  | cons id rest ih =>
      have first := each id List.mem_cons_self state admitted
      have others := ih (fun other member => each other (List.mem_cons_of_mem _ member)) first.2
      exact ⟨.cons first.1 others.1, others.2⟩

/-- What a visit adds is visited in the end, since all of it is older. -/
theorem visited_below (descends : Descends visit outcome admits) (id : NodeId) (state : σ)
    (admitted : admits state) :
    Visited visit (visit state id).1 (visit state id).2 (outcome state id) ∧
      admits (outcome state id) := by
  rw [descends.unfolds state id admitted]
  apply visited_of_each _ (descends.keeps state id admitted)
  intro below member
  have := descends.older state id admitted below member
  exact descends.visited_below below
termination_by id.index

theorem visited (descends : Descends visit outcome admits) {state : σ} (admitted : admits state)
    (ids : List NodeId) : Visited visit state ids (ids.foldl outcome state) :=
  (visited_of_each (fun id _ => descends.visited_below id) admitted).1

end Descends

end

variable {forest : Forest}

/-- The parent that a node remembers, if it is alive. -/
def climb (forest : Forest) (id : NodeId) : Option NodeId :=
  (forest.node id).parent.filter forest.isAlive

/-- One turn of a walk upwards that notes the nodes it comes to. -/
def climbNoting (forest : Forest) : List NodeId × Option NodeId → Option (List NodeId × Option NodeId)
  | (_, none) => none
  | (noted, some id) => some (noted ++ [id], forest.climb id)

/-- Gathering nodes: those that pass a test are noted, and the children come next. -/
def gather (forest : Forest) (keep : NodeId → Bool) : Visit (List NodeId) := fun noted id =>
  (if keep id then noted ++ [id] else noted, (forest.node id).children)

/-- Collecting text: that of texts is noted, and elements are looked into. -/
def collect (forest : Forest) : Visit String := fun noted id =>
  match forest.kind id with
  | .text => (noted ++ (forest.value? id).getD "", [])
  | .element => (noted, (forest.node id).children)
  | _ => (noted, [])

/-- Numbering for a document, with the next number: a node and its attributes are enrolled, and the
children come next. -/
def sealAs (document : DocumentId) : Visit (Forest × Nat) := fun (forest, next) id =>
  let visited := id :: (forest.node id).attributes
  ((forest.enrollAll document visited next, next + visited.length), (forest.node id).children)

/-- The text that a node adds to that of the node it is a child of. -/
def textAdded (forest : Forest) (id : NodeId) : String :=
  match forest.kind id with
  | .text => (forest.value? id).getD ""
  | .element => forest.textBelow id
  | _ => ""

theorem textBelow_eq (forest : Forest) (id : NodeId) :
    forest.textBelow id = String.join ((forest.children id).map forest.textAdded) := by
  rw [textBelow, List.map_subtype (g := forest.textAdded) (fun _ _ => rfl), List.unattach_attach]

theorem foldl_textAdded (forest : Forest) (ids : List NodeId) (noted : String) :
    ids.foldl (fun noted id => noted ++ forest.textAdded id) noted =
      noted ++ String.join (ids.map forest.textAdded) := by
  induction ids generalizing noted with
  | nil => exact String.append_empty.symm
  | cons id rest ih => rw [List.foldl_cons, ih, List.map_cons, String.join_cons, String.append_assoc]

theorem enrollAll_append (forest : Forest) (document : DocumentId) (first second : List NodeId)
    (start : Nat) : forest.enrollAll document (first ++ second) start =
      (forest.enrollAll document first start).enrollAll document second (start + first.length) := by
  rw [enrollAll, List.zipIdx_append, List.foldl_append]
  rfl

/-- Numbering one subtree after the other numbers them all. -/
theorem foldl_enrollAll (document : DocumentId) (list : NodeId → List NodeId) (ids : List NodeId)
    (forest : Forest) (next : Nat) :
    ids.foldl (fun (state : Forest × Nat) id =>
        (state.1.enrollAll document (list id) state.2, state.2 + (list id).length)) (forest, next) =
      (forest.enrollAll document (ids.flatMap list) next, next + (ids.flatMap list).length) := by
  induction ids generalizing forest next with
  | nil => rfl
  | cons id rest ih =>
      rw [List.foldl_cons, ih, List.flatMap_cons, enrollAll_append, List.length_append, Nat.add_assoc]

namespace IsLayered

variable (layered : forest.IsLayered)
include layered

theorem climb_eq (id : NodeId) : forest.climb id = forest.parent? id := (layered.parent?_eq id).symm

theorem descends_gather (keep : NodeId → Bool) :
    Descends (forest.gather keep) (fun noted id => noted ++ (forest.subtree id).filter keep)
      fun _ => True where
  keeps _ _ _ := trivial
  older _ id _ below member := layered.older id below (List.mem_append_right _ member)
  unfolds noted id _ := by
    rw [gather, ← layered.children_eq, List.foldl_append_eq_append, ← List.flatMap_def,
      ← List.filter_flatMap, subtree_eq, descendants, List.filter_cons]
    split
    · exact List.append_cons noted id _
    · rfl

theorem descends_collect :
    Descends forest.collect (fun noted id => noted ++ forest.textAdded id) fun _ => True where
  keeps _ _ _ := trivial
  older noted id _ below member := by
    apply layered.older id below (List.mem_append_right _ _)
    rw [collect] at member
    split at member
    · cases member
    · exact member
    · cases member
  unfolds noted id _ := by
    rw [collect, textAdded]
    cases forest.kind id with
    | text => rfl
    | element =>
        change noted ++ forest.textBelow id = (forest.node id).children.foldl _ noted
        rw [foldl_textAdded, textBelow_eq, layered.children_eq]
    | document | «attribute» | comment => exact String.append_empty

theorem descends_sealAs (document : DocumentId) :
    Descends (sealAs document)
      (fun state id => (state.1.enrollAll document (forest.subtreeWithAttributes id) state.2,
        state.2 + (forest.subtreeWithAttributes id).length))
      fun state => ∀ id, Agrees forest state.1 id where
  keeps state id admitted other := (admitted other).trans (agrees_enrollAll _ _ _ _ other)
  older state id admitted below member := by
    apply layered.older id below (List.mem_append_right _ _)
    rw [sealAs, admitted id] at member
    exact member
  unfolds state id admitted := by
    rw [sealAs, foldl_enrollAll, admitted id, subtreeWithAttributes_eq, ← List.cons_append,
      enrollAll_append, List.length_append, layered.attributes_eq, layered.children_eq,
      Nat.add_assoc]

/-- A forest in which a document is opened is in layers before its nodes are numbered. -/
theorem registered {id : NodeId} (stored : id.index < forest.nodes.size) :
    (forest.registered id).IsLayered :=
  (layered.next (.opened stored)).congr (sameLinks_enrollAll _ _ 0).symm

/-- The way up from a node ends at its root. -/
theorem root_mem_eval (id : NodeId) : forest.root id ∈ StateTransition.eval forest.climb id := by
  induction id using ancestors.induct forest with
  | case1 id none =>
      rw [root_eq, none]
      exact StateTransition.mem_eval.mpr ⟨.refl, (layered.climb_eq id).trans none⟩
  | case2 id parent found _ ih =>
      have step : parent ∈ forest.climb id := (layered.climb_eq id).trans found
      rw [root_eq, found, StateTransition.reaches_eval (.single step)]
      exact ih

/-- The nodes noted on the way up are those above the node. -/
theorem ancestors_mem_eval (id : NodeId) (noted : List NodeId) :
    (noted ++ forest.ancestors id, none) ∈
      StateTransition.eval forest.climbNoting (noted, forest.climb id) := by
  induction id using ancestors.induct forest generalizing noted with
  | case1 id none =>
      rw [layered.climb_eq, ancestors_eq, none, List.append_nil]
      exact StateTransition.mem_eval.mpr ⟨.refl, rfl⟩
  | case2 id parent found _ ih =>
      have step : (noted ++ [parent], forest.climb parent) ∈ forest.climbNoting (noted, some parent) :=
        rfl
      rw [layered.climb_eq, ancestors_eq, found, StateTransition.reaches_eval (.single step)]
      change (noted ++ parent :: forest.ancestors parent, none) ∈ _
      rw [List.append_cons noted parent (forest.ancestors parent)]
      exact ih (noted ++ [parent])

/-- Gathering ends with the nodes of the subtrees that pass the test. -/
theorem gather_mem_eval (keep : NodeId → Bool) (noted ids : List NodeId) :
    (noted ++ (ids.flatMap forest.subtree).filter keep, []) ∈
      StateTransition.eval (turn (forest.gather keep)) (noted, ids) := by
  have visited : Visited (forest.gather keep) noted ids _ :=
    (layered.descends_gather keep).visited trivial ids
  rw [List.foldl_append_eq_append, ← List.flatMap_def, ← List.filter_flatMap] at visited
  exact visited.mem_eval_turn

/-- Gathering all nodes ends with the subtrees. -/
theorem gather_all_mem_eval (noted ids : List NodeId) :
    (noted ++ ids.flatMap forest.subtree, []) ∈
      StateTransition.eval (turn (forest.gather fun _ => true)) (noted, ids) := by
  have ends := layered.gather_mem_eval (fun _ => true) noted ids
  rw [List.filter_true] at ends
  exact ends

theorem collect_mem_eval (ids : List NodeId) :
    (String.join (ids.map forest.textAdded), []) ∈
      StateTransition.eval (call forest.collect) ("", [ids]) := by
  have visited : Visited forest.collect "" ids _ := layered.descends_collect.visited trivial ids
  rw [foldl_textAdded, String.empty_append] at visited
  exact visited.mem_eval_call

/-- Numbering ends with the nodes of the subtrees enrolled, each before its attributes and these before
its children. -/
theorem sealAs_mem_eval (document : DocumentId) (next : Nat) (ids : List NodeId) :
    ((forest.enrollAll document (ids.flatMap forest.subtreeWithAttributes) next,
        next + (ids.flatMap forest.subtreeWithAttributes).length), []) ∈
      StateTransition.eval (call (sealAs document)) ((forest, next), [ids]) := by
  have visited : Visited (sealAs document) (forest, next) ids _ :=
    (layered.descends_sealAs document).visited (fun _ => Agrees.of_eq rfl) ids
  rw [foldl_enrollAll] at visited
  exact visited.mem_eval_call

end IsLayered

/-- Walks from a node, each with what it ends with: the two upwards, the gathering of all nodes without
and with the first, that of the elements named by words, the collecting of text, and the numbering of a
document opened on the node. -/
structure WalksEnd (forest : Forest) (id : NodeId) : Prop where
  root : forest.root id ∈ StateTransition.eval forest.climb id
  ancestors : (forest.ancestors id, none) ∈
    StateTransition.eval forest.climbNoting ([], forest.climb id)
  descendants : (forest.descendants id, []) ∈
    StateTransition.eval (turn (forest.gather fun _ => true)) ([], (forest.node id).children)
  subtree : (forest.subtree id, []) ∈
    StateTransition.eval (turn (forest.gather fun _ => true)) ([id], (forest.node id).children)
  named : ∀ words, ((forest.subtree id).filter (Function.hasIdAmong forest words), []) ∈
    StateTransition.eval (turn (forest.gather (Function.hasIdAmong forest words))) ([], [id])
  text : (forest.textBelow id, []) ∈
    StateTransition.eval (call forest.collect) ("", [(forest.node id).children])
  numbered : ∃ next, (((forest.openDocument id).1, next), []) ∈
    StateTransition.eval (call (sealAs (forest.openDocument id).2))
      ((forest.registered id, 0), [[(forest.underDocumentNode id).2]])

/-- In a forest that steps lead to, every node was built after all that it holds, and the parent that a
node remembers holds it.  So no way down or up returns to where it started, and all walks end. -/
theorem reached_walksEnd {forest : Forest} (reached : Reaches {} forest) :
    (∀ id held, forest.Holds id held → forest.BuiltBefore held id) ∧
      (∀ id parent, forest.Remembers id parent → forest.Holds parent id) ∧
      (∀ id, ¬ Relation.TransGen forest.Holds id id) ∧
      (∀ id, ¬ Relation.TransGen forest.Remembers id id) ∧
      ∀ id, id.index < forest.nodes.size → forest.WalksEnd id := by
  have layered := reached.isLayered
  refine ⟨fun id held => reached.builtBefore, layered.listed, layered.not_transGen_holds,
    layered.not_transGen_remembers, fun id stored => ?_⟩
  constructor
  · exact layered.root_mem_eval id
  · exact layered.ancestors_mem_eval id []
  · rw [← layered.children_eq]
    exact layered.gather_all_mem_eval [] _
  · rw [← layered.children_eq, subtree_eq]
    exact layered.gather_all_mem_eval [id] _
  · intro words
    have ends := layered.gather_mem_eval (Function.hasIdAmong forest words) [] [id]
    rw [List.flatMap_singleton] at ends
    exact ends
  · rw [textBelow_eq, ← layered.children_eq]
    exact layered.collect_mem_eval _
  · have ends := (layered.registered stored).sealAs_mem_eval (forest.openDocument id).2 0
      [(forest.underDocumentNode id).2]
    rw [List.flatMap_singleton] at ends
    exact ⟨_, ends⟩

/-! A tangled forest: an element holds another twice, a second one holds that element and an attribute of
the first besides, and a document is opened on each of the three.  Then all is forgotten that only the
first document held. -/

/-- An element that holds another twice. -/
def sharingDraft : Draft :=
  .element "a" [.labelled "mark" (.attribute "id" "x")]
    [.labelled "shared" (.element "b" [] [.text "t"]), .reference "shared"]

/-- An element that holds nothing new. -/
def reusingDraft : Draft := .element "c" [.reference "mark"] [.reference "shared"]

def plantedSharing : Planting := ((({} : Planting).plant sharingDraft).get rfl).1

def openedSharing : Planting :=
  { plantedSharing with forest := (plantedSharing.forest.openDocument ⟨3⟩).1 }

theorem isSome_plant_reusing : (openedSharing.plant reusingDraft).isSome = true := by decide +kernel

def plantedReusing : Planting := ((openedSharing.plant reusingDraft).get isSome_plant_reusing).1

def tangled : Forest :=
  (((plantedReusing.forest.openDocument ⟨5⟩).1.openDocument ⟨2⟩).1.closeDocument ⟨0⟩).retain []

theorem reaches_tangled : Reaches {} tangled := by
  have first : Planting.PlantedInSteps {} plantedSharing [⟨3⟩] :=
    Planting.plant_inSteps sharingDraft (fun _ member => absurd member List.not_mem_nil) rfl
  have opens : plantedSharing.forest.Next (plantedSharing.forest.openDocument ⟨3⟩).1 :=
    .opened (first.stored ⟨3⟩ List.mem_cons_self)
  have labels : openedSharing.LabelsStored := fun entry member =>
    Nat.lt_of_lt_of_le (first.labels entry member) opens.size_le.1
  have second : Planting.PlantedInSteps openedSharing plantedReusing [_] :=
    Planting.plant_inSteps reusingDraft labels (Option.some_get isSome_plant_reusing).symm
  have planted : Reaches {} plantedReusing.forest := (first.reaches.tail opens).trans second.reaches
  exact (((planted.tail (.opened (by decide +kernel))).tail
    (.opened (by decide +kernel))).tail (.closed ⟨0⟩)).tail (.forgotten [])

theorem reached_walksEnd_tangled :
    Reaches {} tangled ∧
      (tangled.Holds ⟨3⟩ ⟨2⟩ ∧ tangled.Holds ⟨5⟩ ⟨2⟩ ∧ tangled.Holds ⟨7⟩ ⟨2⟩) ∧
      tangled.WalksEnd ⟨2⟩ := by
  refine ⟨reaches_tangled, ?_, ?_⟩
  · unfold Holds
    decide +kernel
  · exact (reached_walksEnd reaches_tangled).2.2.2.2 ⟨2⟩ (by decide +kernel)

end Forest

end NodeQuery

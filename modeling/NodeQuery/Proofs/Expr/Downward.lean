import NodeQuery.Proofs.Expr.Correspondence
import NodeQuery.Proofs.Forest.Severed
import NodeQuery.Proofs.Handler.Decoration
import NodeQuery.Proofs.Selector.Selection

/-!
# Expressions that look down

An expression that steps only to what a node holds does not notice that the document of the node has
been let go.  Its value is built from names, texts and numbers of nodes, and none of these is lost.
What the expression gives is the same value or the same error; a node-set that it gives lists the
same nodes, but has no document any more.
-/

namespace NodeQuery

open Evaluation (Inside)

variable {σ α β γ δ : Type} {forest later : Forest} {document : DocumentId} {root : NodeId}

namespace Evaluation

/-- Both steps leave the state as it is, and either they give values that are alike or both fail with
the same error. -/
def Tracks (alike : α → β → Prop) (left : Evaluation σ α) (right : Evaluation σ β) : Prop :=
  ∀ state,
    (∃ error, left state = (.error error, state) ∧ right state = (.error error, state)) ∨
    ∃ first second, left state = (.ok first, state) ∧ right state = (.ok second, state) ∧
      alike first second

variable {alike : α → β → Prop} {left : Evaluation σ α} {right : Evaluation σ β}

theorem Tracks.pure {first : α} {second : β} (holds : alike first second) :
    Tracks alike (Pure.pure first : Evaluation σ α) (Pure.pure second) :=
  fun _ => Or.inr ⟨first, second, rfl, rfl, holds⟩

theorem Tracks.throw (error : Error) :
    Tracks alike (throw error : Evaluation σ α) (throw error) :=
  fun _ => Or.inl ⟨error, rfl, rfl⟩

theorem Tracks.bind {last : γ → δ → Prop} {next : α → Evaluation σ γ} {other : β → Evaluation σ δ}
    (both : Tracks alike left right)
    (rest : ∀ first second, alike first second → Tracks last (next first) (other second)) :
    Tracks last (left >>= next) (right >>= other) := by
  intro state
  rw [bind_apply, bind_apply]
  rcases both state with ⟨error, leftStep, rightStep⟩ |
    ⟨first, second, leftStep, rightStep, holds⟩
  · rw [leftStep, rightStep]
    exact Or.inl ⟨error, rfl, rfl⟩
  · rw [leftStep, rightStep]
    exact rest first second holds state

end Evaluation

/-- Two values are the same, or they are node-sets without decorations that list the same nodes of a
document, the second one without its document. -/
inductive Value.Severed (forest : Forest) (document : DocumentId) : Value → Value → Prop where
  | boolean (truth : Bool) : Severed forest document (.boolean truth) (.boolean truth)
  | number (amount : Float) : Severed forest document (.number amount) (.number amount)
  | string (text : String) : Severed forest document (.string text) (.string text)
  | nodeSet {set : NodeSet} (bare : set.decorations = none)
      (inside : Inside forest document set.nodes) :
      Severed forest document (.nodeSet set) (.nodeSet { nodes := set.nodes })

namespace Value.Severed

/-- A scalar stays as it is. -/
theorem of_scalar {value : Value} (scalar : ∀ set, value ≠ .nodeSet set) :
    Severed forest document value value := by
  cases value with
  | boolean truth => exact .boolean truth
  | number amount => exact .number amount
  | string text => exact .string text
  | nodeSet set => exact absurd rfl (scalar set)

/-- A node-set made of nodes of the document loses its document. -/
theorem ofNodes (severed : forest.IsSevered later document root) {ids : List NodeId}
    (inside : Inside forest document ids) :
    Severed forest document (.nodeSet (NodeSet.ofNodes forest ids))
      (.nodeSet (NodeSet.ofNodes later ids)) := by
  rw [severed.ofNodes_eq inside]
  exact .nodeSet rfl fun id member => inside id (mem_distinct.mp member)

/-- Nodes of the document are put in the same order, but for the document of the node-set. -/
theorem inDocumentOrder (severed : forest.IsSevered later document root) {ids : List NodeId}
    (inside : Inside forest document ids) :
    Severed forest document (.nodeSet (NodeSet.inDocumentOrder forest ids))
      (.nodeSet (NodeSet.inDocumentOrder later ids)) := by
  rw [severed.inDocumentOrder_eq inside]
  exact .nodeSet rfl fun id member => inside id (NodeSet.mem_inDocumentOrder.mp member)

section
variable {first second : Value} (same : Severed forest document first second)
include same

theorem kind_eq : first.kind = second.kind := by
  cases same <;> rfl

theorem toBoolean_eq : first.toBoolean = second.toBoolean := by
  cases same <;> rfl

theorem keeps_eq {context other : Context σ} (functions : context.functions = other.functions)
    (calledFunction : Option String) (position : Nat) :
    Evaluation.keeps context calledFunction first position =
      Evaluation.keeps other calledFunction second position := by
  cases same with
  | nodeSet bare inside => rfl
  | _ => simp only [Evaluation.keeps, functions]

theorem nodesOf_eq (function : String) :
    Function.nodesOf function first = Function.nodesOf function second := by
  cases same <;> rfl

theorem nodesOf_inside {function : String} {ids : List NodeId}
    (given : Function.nodesOf function first = .ok ids) : Inside forest document ids := by
  cases same with
  | nodeSet bare inside =>
      cases given
      exact inside
  | _ => cases given

variable (severed : forest.IsSevered later document root)
include severed

theorem toText_eq : first.toText forest = second.toText later := by
  cases same with
  | @nodeSet set bare inside =>
      rcases set with ⟨_ | ⟨id, ids⟩, _, _⟩
      · rfl
      · exact (severed.stringValue_eq (inside id List.mem_cons_self)).symm
  | _ => rfl

theorem toNumber_eq : first.toNumber forest = second.toNumber later := by
  cases same with
  | @nodeSet set bare inside =>
      rcases set with ⟨_ | ⟨id, ids⟩, _, _⟩
      · rfl
      · exact congrArg Numeral.ofText (severed.stringValue_eq (inside id List.mem_cons_self)).symm
  | _ => rfl

end

section
variable (severed : forest.IsSevered later document root) {first second third fourth : Value}
include severed

theorem ofScalars_eq (left : Severed forest document first second)
    (right : Severed forest document third fourth) (comparison : Comparison) :
    comparison.ofScalars forest first third = comparison.ofScalars later second fourth := by
  have equal : Comparison.equalScalars forest first third =
      Comparison.equalScalars later second fourth := by
    simp only [Comparison.equalScalars, left.kind_eq, right.kind_eq, left.toBoolean_eq,
      right.toBoolean_eq, left.toNumber_eq severed, right.toNumber_eq severed,
      left.toText_eq severed, right.toText_eq severed]
  cases comparison <;>
    simp only [Comparison.ofScalars, equal, left.toNumber_eq severed, right.toNumber_eq severed]

/-- Whatever is asked of the texts of nodes, some node has such a text before as after. -/
theorem any_stringValue_eq {ids : List NodeId} (inside : Inside forest document ids)
    {holds others : String → Bool} (same : ∀ text, holds text = others text) :
    (ids.any fun id => holds (forest.stringValue id)) =
      ids.any fun id => others (later.stringValue id) := by
  induction ids with
  | nil => rfl
  | cons id ids ih =>
      obtain ⟨here, rest⟩ := List.forall_mem_cons.mp inside
      rw [List.any_cons, List.any_cons, ih rest, severed.stringValue_eq here, same]

theorem holds_eq (left : Severed forest document first second)
    (right : Severed forest document third fourth) (comparison : Comparison) :
    comparison.holds forest first third = comparison.holds later second fourth := by
  have lefts := left
  have rights := right
  cases left with
  | nodeSet bare inside =>
      cases right with
      | @nodeSet set _ otherInside =>
          have beside (text : String) :
              ((set.nodes.map forest.stringValue).any fun other =>
                  comparison.ofTexts text other) =
                (set.nodes.map later.stringValue).any fun other =>
                  comparison.ofTexts text other := by
            rw [List.any_map, List.any_map]
            exact any_stringValue_eq severed otherInside fun _ => rfl
          exact any_stringValue_eq severed inside beside
      | boolean truth => exact ofScalars_eq severed (.boolean _) rights comparison
      | _ =>
          exact any_stringValue_eq severed inside fun text =>
            ofScalars_eq severed (.string text) rights comparison
  | boolean truth =>
      cases right with
      | nodeSet bare inside => exact ofScalars_eq severed lefts (.boolean _) comparison
      | _ => exact ofScalars_eq severed lefts rights comparison
  | _ =>
      cases right with
      | nodeSet bare inside =>
          exact any_stringValue_eq severed inside fun text =>
            ofScalars_eq severed lefts (.string text) comparison
      | _ => exact ofScalars_eq severed lefts rights comparison

end

end Value.Severed

/-!
## Functions

The functions of the table have a few shapes, by what they take off their arguments, and each shape has
one lemma.
-/

abbrev Focus.Inside (focus : Focus) (forest : Forest) (document : DocumentId) : Prop :=
  ∀ id, focus.node = some id → id ∈ forest.nodesOf document

namespace Function

/-- A function that gives the same at a node of a document before and after the document has been let
go, whatever document it is told. -/
def LooksDown (body : Function) : Prop :=
  ∀ (forest later : Forest) (document : DocumentId) (root : NodeId),
    forest.IsSevered later document root →
    ∀ focus : Focus, focus.Inside forest document → ∀ (before after : Option DocumentId)
      (arguments others : List Value),
      List.Forall₂ (Value.Severed forest document) arguments others →
        body forest { focus := focus, document := before } arguments =
          body later { focus := focus, document := after } others

theorem looksDown_unary {body : Forest → CallSite → Value → Except Error Value}
    (same : ∀ forest later document root, Forest.IsSevered forest later document root →
      ∀ site other first second, Value.Severed forest document first second →
        body forest site first = body later other second) :
    (unary body).LooksDown := by
  intro forest later document root severed focus _ before after arguments others alike
  cases alike with
  | nil => rfl
  | cons first _ => exact same _ _ _ _ severed _ _ _ _ first

theorem looksDown_truth (build : Bool → Bool) :
    LooksDown (unary fun _ _ argument => .ok (.boolean (build argument.toBoolean))) :=
  looksDown_unary fun _ _ _ _ _ _ _ _ _ same => by rw [same.toBoolean_eq]

theorem looksDown_ofTexts (body : List Char → List Char → Value) : (ofTexts body).LooksDown := by
  intro forest later document root severed focus _ before after arguments others alike
  rcases alike with _ | ⟨first, _ | ⟨second, _⟩⟩
  · rfl
  · rfl
  · simp only [ofTexts, first.toText_eq severed, second.toText_eq severed]

theorem looksDown_substringOf : substringOf.LooksDown := by
  intro forest later document root severed focus _ before after arguments others alike
  rcases alike with _ | ⟨text, _ | ⟨start, _ | ⟨length, _⟩⟩⟩
  · rfl
  · rfl
  · simp only [substringOf, text.toText_eq severed, start.toNumber_eq severed, List.head?_nil,
      Option.map_none]
  · simp only [substringOf, text.toText_eq severed, start.toNumber_eq severed, List.head?_cons,
      Option.map_some, length.toNumber_eq severed]

theorem looksDown_concat : LooksDown fun forest _ arguments =>
    .ok (.string (String.join (arguments.map (Value.toText forest)))) := by
  intro forest later document root severed focus _ before after arguments others alike
  have texts : arguments.map (Value.toText forest) = others.map (Value.toText later) := by
    induction alike with
    | nil => rfl
    | cons first _ ih => rw [List.map_cons, List.map_cons, ih, first.toText_eq severed]
  simp only [texts]

/-- What is built from the text of an argument, or else of the node in focus. -/
theorem looksDown_ofText (build : String → Value) :
    LooksDown fun forest site arguments => .ok (build (textOrFocus forest site arguments)) := by
  intro forest later document root severed focus inside before after arguments others alike
  have text : textOrFocus forest { focus := focus, document := before } arguments =
      textOrFocus later { focus := focus, document := after } others := by
    cases alike with
    | cons first _ => exact first.toText_eq severed
    | nil =>
        rw [textOrFocus, textOrFocus]
        cases focused : focus.node with
        | none => rfl
        | some id =>
            rw [Option.map_some, Option.map_some, severed.stringValue_eq (inside id focused)]
  simp only [text]

theorem looksDown_number : number.LooksDown := by
  intro forest later document root severed focus inside before after arguments others alike
  cases alike with
  | cons first _ => simp only [number, first.toNumber_eq severed]
  | nil =>
      have focused : Value.Severed forest document
          (.nodeSet (NodeSet.ofNodes forest focus.node.toList))
          (.nodeSet (NodeSet.ofNodes later focus.node.toList)) :=
        .ofNodes severed fun id member => inside id (Option.mem_toList.mp member)
      simp only [number, focused.toNumber_eq severed]

theorem looksDown_count : LooksDown (unary fun _ _ argument =>
    (nodesOf "count" argument).map fun nodes => .number (Float.ofNat nodes.length)) :=
  looksDown_unary fun _ _ _ _ _ _ _ _ _ same => by rw [same.nodesOf_eq]

section
variable {focus : Focus} {arguments others : List Value}
variable (alike : List.Forall₂ (Value.Severed forest document) arguments others)
include alike

theorem nodeOrFocus_eq (function : String) (before after : Option DocumentId) :
    nodeOrFocus function { focus := focus, document := before } arguments =
      nodeOrFocus function { focus := focus, document := after } others := by
  cases alike with
  | nil => rfl
  | cons first _ => exact congrArg (Except.map List.head?) (first.nodesOf_eq function)

theorem nodeOrFocus_inside (inside : focus.Inside forest document) {function : String}
    {before : Option DocumentId} {id : NodeId}
    (given : nodeOrFocus function { focus := focus, document := before } arguments =
      .ok (some id)) : id ∈ forest.nodesOf document := by
  cases alike with
  | nil => exact inside id (Except.ok.inj given)
  | @cons argument _ _ _ first _ =>
      rw [nodeOrFocus] at given
      cases nodes : nodesOf function argument with
      | error error =>
          rw [nodes] at given
          cases given
      | ok ids =>
          rw [nodes] at given
          exact first.nodesOf_inside nodes id (List.mem_of_head? (Except.ok.inj given))

end

/-- What is read off a node of the document, if it is the same before and after. -/
theorem looksDown_nodeName (function : String) {part : Forest → NodeId → Option String}
    (same : ∀ forest later document root, Forest.IsSevered forest later document root →
      ∀ id ∈ forest.nodesOf document, part forest id = part later id) :
    (nodeName function part).LooksDown := by
  intro forest later document root severed focus inside before after arguments others alike
  rw [nodeName, nodeName, ← nodeOrFocus_eq alike function before after]
  cases found : nodeOrFocus function { focus := focus, document := before } arguments with
  | error error => rfl
  | ok node =>
      cases node with
      | none => rfl
      | some id =>
          have nodeInside := nodeOrFocus_inside alike inside found
          rw [Except.map, Except.map, Option.bind_some, Option.bind_some,
            same _ _ _ _ severed id nodeInside]

/-- Every core function but `id` looks down. -/
theorem looksDown_of_mem (registration : Registration) (member : registration ∈ coreRegistrations)
    (other : registration.name ≠ "id") : registration.function.LooksDown := by
  simp only [coreRegistrations, List.mem_cons, List.not_mem_nil, or_false] at member
  rcases member with rfl | rfl | rfl | rfl | rfl | rfl | rfl | rfl | rfl | rfl | rfl | rfl | rfl |
    rfl | rfl | rfl | rfl | rfl
  · exact fun _ _ _ _ _ _ _ _ _ _ _ _ => rfl
  · exact fun _ _ _ _ _ _ _ _ _ _ _ _ => rfl
  · exact looksDown_truth fun truth => !truth
  · exact looksDown_truth fun truth => truth
  · exact looksDown_number
  · exact looksDown_ofText .string
  · exact looksDown_concat
  · exact looksDown_ofTexts fun whole part => .boolean (Text.occursIn part whole)
  · exact looksDown_ofTexts fun whole part => .boolean (part.isPrefixOf whole)
  · exact looksDown_ofText fun text => .number (Float.ofNat text.length)
  · exact looksDown_ofText fun text => .string (String.ofList (Text.normalize text.toList))
  · exact looksDown_substringOf
  · exact looksDown_count
  · exact fun _ _ _ _ _ _ _ _ _ _ _ _ => rfl
  · exact fun _ _ _ _ _ _ _ _ _ _ _ _ => rfl
  · exact looksDown_nodeName "name" fun _ _ _ _ severed id inside =>
      (severed.retains id inside).name?_eq.symm
  · exact looksDown_nodeName "local-name" fun _ _ _ _ severed id inside =>
      congrArg (Option.map Forest.localPart) (severed.retains id inside).name?_eq.symm
  · exact absurd rfl other

end Function

/-- The core functions but `id` look down, and give scalars. -/
theorem Registry.core_looksDown {function : String} (other : function ≠ "id") {count : Nat}
    {body : Function} (resolved : core.resolve function count = .ok body) :
    body.LooksDown ∧ body.GivesScalars := by
  obtain ⟨registration, named, _, rfl⟩ := resolve_mem resolved
  obtain ⟨registered, called⟩ := List.mem_filter.mp named
  rw [← eq_of_beq called] at other
  have member := List.mem_reverse.mp registered
  refine ⟨Function.looksDown_of_mem registration member other, ?_⟩
  rcases Function.scalar_or_elementsById registration member with ⟨byId, _⟩ | scalar
  · exact absurd byId other
  · exact scalar

namespace Evaluation

abbrev SameInside (forest : Forest) (document : DocumentId) (ids others : List NodeId) : Prop :=
  SameWithin (· ∈ forest.nodesOf document) ids others

theorem tracks_requireNodes (place : NodeSetPlace) {first second : Value}
    (same : first.Severed forest document second) :
    Tracks (SameInside forest document) (requireNodes place first : Evaluation σ (List NodeId))
      (requireNodes place second) := by
  cases same with
  | nodeSet _ inside => exact Tracks.pure ⟨rfl, inside⟩
  | _ => exact Tracks.throw _

theorem tracks_composes : Composes (σ := σ) (τ := σ) Tracks where
  pure := Tracks.pure
  bind := Tracks.bind

section
variable (severed : forest.IsSevered later document root)
include severed

theorem focusValue_severed {focus : Focus} (inside : focus.Inside forest document) :
    (focusValue forest focus).Severed forest document (focusValue later focus) :=
  .ofNodes severed fun id member => inside id (Option.mem_toList.mp member)

/-- A core function other than `id` is called alike, and the handler is not asked. -/
theorem tracks_call {context : Context σ} (core : context.functions = Registry.core) {focus : Focus}
    (inside : focus.Inside forest document) {function : String}
    (registered : Registry.core.contains function = true) (other : function ≠ "id")
    {arguments others : List Value}
    (alike : List.Forall₂ (Value.Severed forest document) arguments others) :
    Tracks (Value.Severed forest document) (call forest context focus function arguments)
      (call later context focus function others) := by
  rw [call, call, core, ← alike.length_eq]
  cases resolved : Registry.core.resolve function arguments.length with
  | ok body =>
      obtain ⟨down, scalars⟩ := Registry.core_looksDown other resolved
      have same := down _ _ _ _ severed focus inside (context.document? forest)
        (context.document? later) _ _ alike
      simp only [← same]
      split
      · rename_i value given
        exact Tracks.pure (.of_scalar (scalars _ _ _ _ given))
      · exact Tracks.throw _
  | error unresolved =>
      cases unresolved with
      | unknown name =>
          rw [Registry.contains_of_unknown resolved] at registered
          cases registered
      | wrongArity name available => exact Tracks.throw _
      | capacityOverflow => exact Tracks.throw _

end

end Evaluation

namespace Expr

open Evaluation

mutual

/-- The expression has only relative paths over axes that lead down, no variables, and only calls of
core functions other than `id`, in predicates and arguments too. -/
def LooksDown : Expr → Prop
  | .number _ | .string _ | .focus => True
  | .var _ | .rootPath _ => False
  | .call function arguments =>
    (Registry.core.contains function = true ∧ function ≠ "id") ∧ AllLookDown arguments
  | .arithmetic _ left right | .connective _ left right | .comparison _ left right
  | .union left right => LooksDown left ∧ LooksDown right
  | .negate operand => LooksDown operand
  | .focusPath steps => StepsLookDown steps
  | .exprPath start steps => LooksDown start ∧ StepsLookDown steps
  | .filter primary predicates => LooksDown primary ∧ AllLookDown predicates

def AllLookDown : List Expr → Prop
  | [] => True
  | first :: others => LooksDown first ∧ AllLookDown others

def StepsLookDown : List Step → Prop
  | [] => True
  | .mk axis _ predicates :: steps =>
    axis.leadsDown = true ∧ AllLookDown predicates ∧ StepsLookDown steps

end

/-- The class of the expressions that look down.  All of them are settled. -/
def Scope.lookingDown : Scope where
  expr := LooksDown
  all := AllLookDown
  steps := StepsLookDown
  settled _ := True
  call down := by
    rw [LooksDown] at down
    exact down.2
  arithmetic down := by
    rw [LooksDown] at down
    exact ⟨⟨trivial, down.1⟩, trivial, down.2⟩
  connective down := by rwa [LooksDown] at down
  comparison down := by rwa [LooksDown] at down
  negate down := by
    rw [LooksDown] at down
    exact ⟨trivial, down⟩
  union down := by rwa [LooksDown] at down
  rootPath down := by
    rw [LooksDown] at down
    exact down.elim
  focusPath down := by rwa [LooksDown] at down
  exprPath down := by
    rw [LooksDown] at down
    exact ⟨fun _ => trivial, down⟩
  filter down := by
    rw [LooksDown] at down
    exact ⟨⟨trivial, down.1⟩, down.2⟩
  cons down := by rwa [AllLookDown] at down
  step down := by
    rw [StepsLookDown] at down
    exact down.2

theorem Scope.leadsDown_of_lookingDown {axis : Axis} {test : NodeTest} {predicates : List Expr}
    {path : List Step} (down : lookingDown.steps (.mk axis test predicates :: path)) :
    axis.leadsDown = true := by
  change StepsLookDown _ at down
  rw [StepsLookDown] at down
  exact down.1

end Expr

namespace Evaluation

/-- At nodes of a document, expressions that look down correspond to themselves before and after the
document has been let go, but that node-sets lose it. -/
theorem correspondence_severed (context : Context σ) (severed : forest.IsSevered later document root)
    (core : context.functions = Registry.core) :
    Correspondence .lookingDown forest later context context Tracks (· ∈ forest.nodesOf document)
      (Value.Severed forest document) (Value.Severed forest document) where
  toComposes := tracks_composes
  scalar := .of_scalar
  like_of_same same := same
  toBoolean_eq same := same.toBoolean_eq
  toNumber_eq same := same.toNumber_eq severed
  holds_eq left right := left.holds_eq severed right _
  keeps_eq same := same.keeps_eq rfl _ _
  inFocus inside := focusValue_severed severed inside
  sorted inside := .inDocumentOrder severed inside
  candidates {_ test _ _ _} down inside := by
    have leads := Expr.Scope.leadsDown_of_lookingDown down
    exact ⟨(severed.candidates_eq leads test inside).symm, candidates_inside severed.tree _ test inside⟩
  bound down := down.elim
  called down inside alike _ := by
    change Expr.LooksDown _ at down
    rw [Expr.LooksDown] at down
    exact tracks_call severed core inside down.1.1 down.1.2 alike
  rooted down _ := down.elim
  united := tracks_composes.unionOf (fun place _ _ => tracks_requireNodes place)
    fun inside => .inDocumentOrder severed inside
  filtered := tracks_requireNodes .predicate
  stepped _ start finds := tracks_composes.step (fun place _ _ => tracks_requireNodes place)
    (fun inside => .inDocumentOrder severed inside) start finds

end Evaluation

/-!
## Answers without their document

What an evaluation hands out is decorated while the document is open, and it is not any more when the
document has been let go.
-/

/-- A value found while a document is open, and what is found when it has been let go.  A scalar is
the same.  A node-set has the same nodes in the same order; it was decorated by the document and is
not any more, and neither the set nor any of its nodes reports a document. -/
inductive Value.Outlived (forest later : Forest) (document : DocumentId) : Value → Value → Prop where
  | scalar {value : Value} (scalar : ∀ set, value ≠ .nodeSet set) :
      Outlived forest later document value value
  | nodeSet {before after : NodeSet} (nodes : after.nodes = before.nodes)
      (reported : before.document? forest = some document)
      (decorated : before.decorations = some (forest.decorations document))
      (undecorated : after.isDecorated = false) (unreported : after.document? later = none)
      (orphans : ∀ id ∈ after.nodes, later.document? id = none) :
      Outlived forest later document (.nodeSet before) (.nodeSet after)

section
variable (severed : forest.IsSevered later document root)
include severed

/-- Nodes of the document belong to it before, and to no document afterwards. -/
theorem Forest.IsSevered.owner {ids : List NodeId} (idsInside : Inside forest document ids)
    {id : NodeId} (inside : id ∈ forest.nodesOf document) :
    (ids.head?.bind forest.document?).or (forest.document? id) = some document ∧
      (ids.head?.bind later.document?).or (later.document? id) = none := by
  have belongs {other : NodeId} (member : other ∈ forest.nodesOf document) :
      forest.document? other = some document := by
    rw [severed.tree.nodesOf_eq] at member
    exact severed.tree.document other member
  rw [belongs inside, severed.document?_eq inside]
  cases first : ids.head? with
  | none => exact ⟨rfl, rfl⟩
  | some other =>
      have otherInside := idsInside other (List.mem_of_head? first)
      rw [Option.bind_some, Option.bind_some, belongs otherInside, severed.document?_eq otherInside]
      exact ⟨rfl, rfl⟩

/-- Decorated at a node of the document, a value finds the document as long as it is there. -/
theorem Value.Severed.decorate {first second : Value} (same : first.Severed forest document second)
    {id : NodeId} (inside : id ∈ forest.nodesOf document) :
    Value.Outlived forest later document (first.decorate forest (forest.document? id))
      (second.decorate later (later.document? id)) := by
  cases same with
  | @nodeSet set bare nodesInside =>
      obtain ⟨owned, abandoned⟩ := severed.owner nodesInside inside
      have before : (set.decorate forest (forest.document? id)).DecoratedByOwner forest
          (forest.document? id) :=
        NodeSet.decoratedByOwner_of_bare bare fun _ found => (Option.filter_eq_some_iff.mp found).2
      have still : (set.decorate forest (forest.document? id)).owner? forest (forest.document? id) =
          some document := by
        rw [NodeSet.owner?, NodeSet.first?, NodeSet.nodes_decorate]
        exact owned
      have unchanged : NodeSet.decorate { nodes := set.nodes } later (later.document? id) =
          { nodes := set.nodes } := by
        rw [NodeSet.decorate, NodeSet.first?, abandoned]
        rfl
      rw [Value.decorate, Value.decorate, unchanged]
      exact .nodeSet (set.nodes_decorate _).symm (before.document document still)
        (before.decorations document still) rfl rfl
        fun other member => severed.document?_eq (nodesInside other member)
  | _ => exact .scalar fun _ equal => by cases equal

end

namespace Query

/-- Let a document of fresh nodes be let go, and let whatever else happen to the forest.  At a node
of the document an expression that looks down then gives the same scalar, the same error or the same
nodes in the same order as when the document was open, without asking the handler.  Only the
decorations are lost, and the document with them. -/
theorem evaluate_outlives (fresh : forest.HasFreshDocument document)
    (reaches : Forest.Reaches forest later) (closed : later.isOpen document = false) {id : NodeId}
    (inside : id ∈ forest.nodesOf document) {text : String} {expression : Expr}
    (read : Expr.parse? text = some expression) (down : expression.LooksDown)
    {context : Context σ} (core : context.functions = Registry.core)
    (started : context.node = some id) :
    Evaluation.Tracks (Value.Outlived forest later document) (evaluate forest text context)
      (evaluate later text context) := by
  obtain ⟨root, severed⟩ := fresh.isSevered reaches closed
  have focused : context.focus.Inside forest document := by
    intro other focused
    rw [Context.focus, started] at focused
    rwa [← Option.some.inj focused]
  rw [evaluate_of_parse read, evaluate_of_parse read, Expr.eval, Expr.eval]
  have corresponds := Evaluation.correspondence_severed context severed core
  apply Evaluation.Tracks.bind (corresponds.evalAt _ focused expression down)
  rintro first second ⟨same, _⟩
  rw [Context.document?, Context.document?, started]
  exact Evaluation.Tracks.pure (same.decorate severed inside)

/-- The pair once its document has been let go, with nothing held but the element `r`. -/
def loosePair : Forest := (markedPair.closeDocument pairDocument.2).retain [⟨4⟩]

/-- The children `b` and those with the name `a`. -/
def namedChildren : Expr :=
  .union (.focusPath [.mk .child (.named "b") []])
    (.focusPath [.mk .child .anyName [.comparison .eq (.call "name" []) (.string "a")]])

set_option maxRecDepth 4000 in
/-- The element `r` has lost its parent, and its children are found as before, undecorated. -/
theorem evaluate_outlives_loosePair :
    let text := "b | *[name() = 'a']"
    let context : Context Nat := { node := some ⟨4⟩ }
    Expr.parse? text = some namedChildren ∧ namedChildren.LooksDown ∧
    markedPair.parent? ⟨4⟩ = some ⟨5⟩ ∧ loosePair.parent? ⟨4⟩ = none ∧
      ∃ before after, (evaluate markedPair text context 0).1 = .ok (.nodeSet before) ∧
        (evaluate loosePair text context 0).1 = .ok (.nodeSet after) ∧
        before.nodes = [⟨1⟩, ⟨3⟩] ∧ after.nodes = [⟨1⟩, ⟨3⟩] ∧
        before.decorations = some [⟨"mark", ⟨0⟩⟩] ∧ after.isDecorated = false := by
  intro text context
  have fresh : markedPair.HasFreshDocument pairDocument.2 :=
    ⟨pairDocument.1, ⟨{}, _, pairDraft, _, rfl, rfl, rfl⟩, by decide +kernel, by decide +kernel,
      fun _ _ => rfl⟩
  have reaches : Forest.Reaches markedPair loosePair :=
    .tail (.single (.closed pairDocument.2)) (.forgotten [⟨4⟩])
  have read : Expr.parse? "b | *[name() = 'a']" = some namedChildren := rfl
  have down : namedChildren.LooksDown := by
    simp only [namedChildren, Expr.LooksDown, Expr.StepsLookDown, Expr.AllLookDown]
    decide
  have found : nodesOf? (evaluate markedPair text context 0).1 = some [⟨1⟩, ⟨3⟩] := by
    decide +kernel
  refine ⟨read, down, by decide +kernel, by decide +kernel, ?_⟩
  rcases evaluate_outlives fresh reaches (by decide +kernel) (by decide +kernel) read down
    (rfl : context.functions = Registry.core) rfl 0 with
    ⟨error, failed, _⟩ | ⟨first, second, given, givenLater, outlived⟩
  · rw [failed] at found
    cases found
  · rw [given] at found ⊢
    rw [givenLater]
    cases outlived with
    | scalar scalar =>
        cases first with
        | nodeSet set => exact absurd rfl (scalar set)
        | _ => cases found
    | @nodeSet before after nodes _ decorated undecorated _ _ =>
        have registered : markedPair.decorations pairDocument.2 = [⟨"mark", ⟨0⟩⟩] := by
          decide +kernel
        have foundNodes : before.nodes = [⟨1⟩, ⟨3⟩] := Option.some.inj found
        exact ⟨before, after, rfl, rfl, foundNodes, nodes.trans foundNodes,
          decorated.trans (congrArg some registered), undecorated⟩

end Query

end NodeQuery

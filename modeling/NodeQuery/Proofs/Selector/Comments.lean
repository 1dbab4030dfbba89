import NodeQuery.Proofs.Forest.Comments
import NodeQuery.Proofs.Selector.Reading
import NodeQuery.Proofs.Selector.Words

/-!
# Selectors and comments

What a selector with no pseudo-class of its own finds in a document is found in the same document with
comments put between the children of its nodes, in the same order.  Names, attributes and the elements
along an axis are the same for a node and its image, so a predicate answers alike at both, and steps lead
from images to images.  Only `:empty` looks at nodes that are no elements; it takes a comment for content.
-/

namespace NodeQuery

open NodeQuery.Expr Evaluation

variable {σ : Type}

/-- Whether a condition has a meaning of its own, so that no function is called for it by its name. -/
def Condition.isBuiltIn : Condition → Bool
  | .negation inner => inner.isBuiltIn
  | .pseudoClass name arguments => (Structural.of? name arguments).isSome
  | _ => true

/-- Whether a condition asks an element for its content, however deep below negations. -/
def Condition.asksEmpty : Condition → Bool
  | .negation inner => inner.asksEmpty
  | .pseudoClass name arguments => Structural.of? name arguments == some .empty
  | _ => false

def Selector.conditionsOf (group : SelectorGroup) : List Condition :=
  group.flatMap fun selector =>
    selector.first.conditions ++ selector.others.flatMap fun link => link.2.conditions

/-- The texts of the attributes of a node that have a name. -/
def Forest.textsNamed (forest : Forest) (id : NodeId) (name : String) : List String :=
  (NodeSet.inDocumentOrder forest (candidates forest .attribute (.named name) id)).nodes.map
    forest.stringValue

/-- Asking a node-set is asking the texts of its nodes, in order. -/
structure AsksTexts (ask : Expr → Expr) (verdict : List String → Prop) : Prop where
  answers : ∀ {σ : Type} {forest : Forest} {context : Context σ} {focus : Focus} {target : Expr}
    {set : NodeSet}, context.functions = Registry.core →
      evalAt forest context focus target = pure (.nodeSet set) →
        Answers forest context focus (ask target) (verdict (set.nodes.map forest.stringValue))

theorem toText_nodeSet (forest : Forest) (set : NodeSet) :
    (Value.nodeSet set).toText forest = (set.nodes.map forest.stringValue).head?.getD "" := by
  rw [Value.toText, NodeSet.first?, List.head?_map]

theorem asksTexts_equal (value : String) :
    AsksTexts (fun target => .comparison .eq target (.string value)) (fun texts => value ∈ texts) where
  answers {_ forest _ _ _ set} core given := by
    apply answers_boolean (evalAt_comparison .eq given (evalAt_string value))
    have each : Comparison.eq.holds forest (.nodeSet set) (.string value) =
        set.nodes.any fun id => forest.stringValue id == value := rfl
    simp only [each, List.any_eq_true, List.mem_map, beq_iff_eq]

theorem asksTexts_startsWith (value : String) :
    AsksTexts (fun target => .call "starts-with" [target, .string value])
      (fun texts => value.toList.isPrefixOf (texts.head?.getD "").toList = true) where
  answers {_ forest _ _ _ set} core given := by
    apply answers_boolean (evalAt_startsWith core given (evalAt_string value))
    rw [toText_nodeSet, Value.toText]

theorem asksTexts_contains (value : String) :
    AsksTexts (fun target => .call "contains" [target, .string value])
      (fun texts => Text.occursIn value.toList (texts.head?.getD "").toList = true) where
  answers {_ forest _ _ _ set} core given := by
    apply answers_boolean (evalAt_contains core given (evalAt_string value))
    rw [toText_nodeSet, Value.toText]

theorem asksTexts_word (value : String) :
    AsksTexts (fun target => Selector.wordExpr target value)
      (fun texts => Text.HasRun (texts.head?.getD "").toList value.toList) where
  answers {_ forest _ _ _ set} core given := by
    have answers := answers_wordExpr core given value
    rwa [toText_nodeSet] at answers

/-- The end of a text that is as long as a value, as the condition for an ending cuts it. -/
def endOf (text value : String) : List Char :=
  Function.substring text.toList
    (Float.ofNat text.length - Float.ofNat value.length + Numeral.Decimal.toFloat ⟨1, 0⟩) none

theorem asksTexts_endsWith (value : String) :
    AsksTexts (fun target => Selector.attributeMatchExpr target .ending value)
      (fun texts => String.ofList (endOf (texts.head?.getD "") value) = value) where
  answers {_ forest context focus _ set} core given := by
    have one : evalAt forest context focus (Selector.countExpr 1) =
        pure (.number (Numeral.Decimal.toFloat ⟨1, 0⟩)) := by rw [Selector.countExpr, evalAt]
    have difference := evalAt_arithmetic .sub (evalAt_stringLength core given)
      (evalAt_stringLength core (evalAt_string value))
    have start := evalAt_arithmetic .add difference one
    apply answers_boolean
      (evalAt_comparison .eq (evalAt_substring core given start) (evalAt_string value))
    rw [holds_texts, String.toList_inj, toText_nodeSet]
    rfl

theorem asksTexts_dashed (value : String) :
    AsksTexts (fun target => Selector.attributeMatchExpr target .dashed value)
      (fun texts => value ∈ texts ∨
        (value ++ "-").toList.isPrefixOf (texts.head?.getD "").toList = true) where
  answers core given := Answers.connective .or ((asksTexts_equal value).answers core given)
    ((asksTexts_startsWith (value ++ "-")).answers core given)

/-- How an attribute compares depends on its texts alone. -/
theorem exists_asksTexts (relation : AttributeMatch) (value : String) :
    ∃ verdict, AsksTexts (fun target => Selector.attributeMatchExpr target relation value) verdict := by
  cases relation with
  | exact => exact ⟨_, asksTexts_equal value⟩
  | word => exact ⟨_, asksTexts_word value⟩
  | start => exact ⟨_, asksTexts_startsWith value⟩
  | ending => exact ⟨_, asksTexts_endsWith value⟩
  | inside => exact ⟨_, asksTexts_contains value⟩
  | dashed => exact ⟨_, asksTexts_dashed value⟩

/-!
## Nodes and their images

A node and its image have the same name and the same attributes, and the same elements around them.
-/

namespace Forest.Commented

variable {before after : Forest} {first second : DocumentId} {image : NodeId → NodeId}
variable {top bottom : NodeId} (commented : before.Commented first after second image)
variable (tree : before.IsTree first top) (grown : after.IsTree second bottom)
include commented tree grown

/-- The attributes of a node and of its image have the same texts. -/
theorem textsNamed_eq {id : NodeId} (inside : id ∈ before.nodesOf first) (name : String) :
    after.textsNamed (image id) name = before.textsNamed id name := by
  have held (attached : NodeId) (member : attached ∈ before.attributes id) :=
    tree.held_mem inside (List.mem_append_left _ member)
  have found : candidates after .attribute (.named name) (image id) =
      (candidates before .attribute (.named name) id).map image := by
    rw [candidates, candidates, along, along, commented.attributes id inside, List.filter_map]
    congr 1
    apply List.filter_congr
    intro attached member
    rw [Function.comp_apply, NodeTest.accepts, NodeTest.accepts, commented.kind _ (held _ member),
      commented.name _ (held _ member)]
  rw [textsNamed, textsNamed, nodes_attributesNamed tree inside,
    nodes_attributesNamed grown (commented.image_mem tree grown inside), found, List.map_map]
  apply List.map_congr_left
  intro attached member
  have attributed := List.mem_of_mem_filter member
  have placed := inside
  rw [tree.nodesOf_eq] at placed
  have kind := (tree.owned id placed).attribute_kind attached attributed
  rw [Function.comp_apply, stringValue, stringValue, commented.kind _ (held _ attributed), kind,
    commented.value _ (held _ attributed)]

section
variable {id : NodeId} (inside : id ∈ before.nodesOf first)
include inside

theorem elementsBeside_eq :
    after.elementsBeside (image id) = (before.elementsBeside id).map image := by
  rw [elementsBeside, elementsBeside, commented.parent?_eq tree grown inside]
  cases found : before.parent? id with
  | none => exact commented.filter_image inside
  | some parent => exact commented.filter_children tree grown (tree.parent_mem inside found)

variable (element : before.isElement id = true)
include element

/-- On either side of an image are the images of the elements on that side. -/
theorem elementsAlong_siblings :
    after.elementsAlong .precedingSibling (image id) =
        (before.elementsAlong .precedingSibling id).map image ∧
      after.elementsAlong .followingSibling (image id) =
        (before.elementsAlong .followingSibling id).map image := by
  have imageInside := commented.image_mem tree grown inside
  have imageElement : after.isElement (image id) = true := by rwa [commented.isElement_eq inside]
  have beside := commented.elementsBeside_eq tree grown inside
  rw [tree.nodesOf_eq] at inside
  rw [grown.nodesOf_eq] at imageInside
  have once := grown.nodup_elementsBeside imageInside
  rw [grown.elementsBeside_eq imageInside imageElement] at beside once
  rw [tree.elementsBeside_eq inside element, List.map_append, List.map_cons] at beside
  rcases (append_cons_eq_iff once _ _).mp beside with ⟨earlier, later⟩
  refine ⟨?_, later⟩
  rw [List.map_reverse, List.reverse_inj] at earlier
  exact earlier

theorem elementsAlong_eq {axis : Axis}
    (near : axis ∈ [.self, .child, .descendant, .parent, .precedingSibling, .followingSibling]) :
    after.elementsAlong axis (image id) = (before.elementsAlong axis id).map image := by
  have siblings := commented.elementsAlong_siblings tree grown inside element
  simp only [List.mem_cons, List.not_mem_nil, or_false] at near
  rcases near with rfl | rfl | rfl | rfl | rfl | rfl
  · exact commented.filter_image inside
  · exact commented.filter_children tree grown inside
  · rw [elementsAlong, elementsAlong, along_descendant, along_descendant]
    exact commented.filter_descendants tree grown inside
  · rw [elementsAlong, elementsAlong, along, along, commented.parent?_eq tree grown inside]
    cases found : before.parent? id with
    | none => rfl
    | some parent => exact commented.filter_image (tree.parent_mem inside found)
  · exact siblings.1
  · exact siblings.2

end

end Forest.Commented

/-- What a predicate asks of the elements of any document. -/
structure Means (predicate : Expr) (meaning : Forest → NodeId → Prop) : Prop where
  answers : ∀ {σ : Type} {forest : Forest} {document : DocumentId} {root : NodeId} {context : Context σ},
    forest.IsTree document root → context.functions = Registry.core →
      AnswersAt forest context (fun id => id ∈ forest.nodesOf document ∧ forest.isElement id = true)
        predicate (meaning forest)

/-- Asking an image is asking the element it is the image of. -/
def AskedAlike (before : Forest) (first : DocumentId) (after : Forest) (image : NodeId → NodeId)
    (meaning : Forest → NodeId → Prop) : Prop :=
  ∀ id ∈ before.nodesOf first, before.isElement id = true → (meaning after (image id) ↔ meaning before id)

theorem Means.not {predicate : Expr} {meaning : Forest → NodeId → Prop} (means : Means predicate meaning) :
    Means (.call "not" [predicate]) (fun forest id => ¬ meaning forest id) where
  answers tree core id among focus here := Answers.not core (means.answers tree core id among focus here)

theorem means_elementName (element : ElementName) :
    Means (.focusPath [.mk .self (Selector.nodeTest element) []])
      (fun forest id => element.Names forest id) where
  answers _ _ _ := fun ⟨_, isElement⟩ _ here => answers_elementName isElement here element

theorem means_attribute (name : String) :
    Means (Selector.attributeExpr name) (fun forest id => forest.textsNamed id name ≠ []) where
  answers {_ forest _ _ context} _ _ id _ focus here := by
    refine answers_nodeSet (evalAt_step forest context here .attribute (.named name)) ?_
    exact not_congr List.map_eq_nil_iff.symm

theorem AsksTexts.means {ask : Expr → Expr} {verdict : List String → Prop} (asks : AsksTexts ask verdict)
    (name : String) :
    Means (ask (Selector.attributeExpr name)) (fun forest id => verdict (forest.textsNamed id name)) where
  answers {_ forest _ _ context} _ core _ _ _ here :=
    asks.answers core (evalAt_step forest context here .attribute (.named name))

theorem means_structural (structural : Structural) :
    Means structural.expr (fun forest id => structural.Asks forest id) where
  answers tree core _ := fun ⟨inside, element⟩ _ here => answers_asks tree inside element core here structural

/-- What is read for a pseudo-class with a fixed meaning. -/
theorem readExpr?_of_structural {name : String} {arguments : Option (List PseudoArgument)}
    {structural : Structural} (known : Structural.of? name arguments = some structural) :
    Selector.readExpr? (.pseudoClass name arguments) = some structural.expr := by
  have unsigned := (Structural.name_isPlain (Option.isSome_iff_exists.mpr ⟨structural, known⟩)).1
  rw [Selector.readExpr?]
  split
  · rename_i chars spelled
    rw [Selector.isUnsigned, spelled] at unsigned
    cases unsigned
  · exact pseudoClassExpr?_of_structural known

section
variable {before after : Forest} {first second : DocumentId} {image : NodeId → NodeId}
variable {top bottom : NodeId} (commented : before.Commented first after second image)
variable (tree : before.IsTree first top) (grown : after.IsTree second bottom)
include commented tree grown

/-- Every pseudo-class but that for an empty element looks at elements alone. -/
theorem askedAlike_structural (structural : Structural)
    (calm : structural = .empty → before.EmptyKept first after image) :
    AskedAlike before first after image fun forest id => structural.Asks forest id := by
  intro id inside element
  have along (axis : Axis)
      (near : axis ∈ [.self, .child, .descendant, .parent, .precedingSibling, .followingSibling]) :
      after.elementsAlong axis (image id) = [] ↔ before.elementsAlong axis id = [] := by
    rw [commented.elementsAlong_eq tree grown inside element near, List.map_eq_nil_iff]
  have length (axis : Axis)
      (near : axis ∈ [.self, .child, .descendant, .parent, .precedingSibling, .followingSibling]) :
      (after.elementsAlong axis (image id)).length = (before.elementsAlong axis id).length := by
    rw [commented.elementsAlong_eq tree grown inside element near, List.length_map]
  cases structural with
  | firstChild => exact along .precedingSibling (by decide)
  | lastChild => exact along .followingSibling (by decide)
  | onlyChild => exact and_congr (along .precedingSibling (by decide)) (along .followingSibling (by decide))
  | empty =>
      refine ⟨fun nothing => ?_, calm rfl id inside element⟩
      change after.children (image id) = [] at nothing
      have kept := commented.children id inside
      rw [nothing, List.sublist_nil, List.map_eq_nil_iff] at kept
      exact kept
  | root => exact along .parent (by decide)
  | nthChild count => simp only [Structural.Asks, length .precedingSibling (by decide)]
  | nthLastChild count => simp only [Structural.Asks, length .followingSibling (by decide)]

omit tree grown in
theorem askedAlike_names (element : ElementName) :
    AskedAlike before first after image fun forest id => element.Names forest id := by
  intro id inside _
  cases element with
  | any => exact Iff.rfl
  | named name =>
      change after.name? (image id) = some name ↔ before.name? id = some name
      rw [commented.name id inside]

theorem AsksTexts.exists_means {ask : Expr → Expr} {verdict : List String → Prop}
    (asks : AsksTexts ask verdict) (name : String) :
    ∃ meaning, Means (ask (Selector.attributeExpr name)) meaning ∧
      AskedAlike before first after image meaning := by
  refine ⟨_, asks.means name, fun id inside _ => ?_⟩
  rw [commented.textsNamed_eq tree grown inside]

/-- A condition with a meaning of its own asks of an image what it asks of the element, if it does not ask
for an empty one or no empty one is filled. -/
theorem exists_means {condition : Condition} (builtIn : condition.isBuiltIn = true)
    (calm : condition.asksEmpty = true → before.EmptyKept first after image) {predicate : Expr}
    (read : Selector.readExpr? condition = some predicate) :
    ∃ meaning, Means predicate meaning ∧ AskedAlike before first after image meaning := by
  induction condition generalizing predicate with
  | elementName element =>
      cases read
      exact ⟨_, means_elementName element, askedAlike_names commented element⟩
  | id value =>
      cases read
      exact (asksTexts_equal value).exists_means commented tree grown "id"
  | class_ value =>
      cases read
      exact (asksTexts_word value).exists_means commented tree grown "class"
  | «attribute» name test =>
      rcases test with _ | ⟨relation, value⟩
      · cases read
        refine ⟨_, means_attribute name, fun id inside _ => ?_⟩
        rw [commented.textsNamed_eq tree grown inside]
      · cases read
        rcases exists_asksTexts relation value with ⟨verdict, asks⟩
        exact asks.exists_means commented tree grown name
  | negation inner ih =>
      rcases Option.map_eq_some_iff.mp read with ⟨body, innerRead, rfl⟩
      rcases ih builtIn calm innerRead with ⟨meaning, means, alike⟩
      exact ⟨_, means.not, fun id inside element => not_congr (alike id inside element)⟩
  | pseudoClass name arguments =>
      rcases Option.isSome_iff_exists.mp builtIn with ⟨structural, known⟩
      rw [readExpr?_of_structural known] at read
      cases read
      refine ⟨_, means_structural structural, askedAlike_structural commented tree grown structural ?_⟩
      rintro rfl
      exact calm (by rw [Condition.asksEmpty, known]; rfl)

/-- A condition with a meaning of its own, where no empty element is filled if it asks for one. -/
structure IsAskedAlike (before : Forest) (first : DocumentId) (after : Forest) (image : NodeId → NodeId)
    (condition : Condition) : Prop where
  builtIn : condition.isBuiltIn = true
  calm : condition.asksEmpty = true → before.EmptyKept first after image

theorem exists_meanings {conditions : List Condition}
    (each : ∀ condition ∈ conditions, IsAskedAlike before first after image condition)
    {predicates : List Expr} (read : conditions.mapM Selector.readExpr? = some predicates) :
    ∃ meanings, List.Forall₂ Means predicates meanings ∧
      ∀ meaning ∈ meanings, AskedAlike before first after image meaning := by
  have all := Selector.forall₂_of_mapM read
  clear read
  induction all with
  | nil => exact ⟨[], .nil, by simp⟩
  | @cons predicate condition predicates conditions given _ ih =>
      rcases List.forall_mem_cons.mp each with ⟨here, each⟩
      rcases exists_means commented tree grown here.builtIn here.calm given with ⟨meaning, means, alike⟩
      rcases ih each with ⟨meanings, others, othersAlike⟩
      exact ⟨meaning :: meanings, .cons means others, List.forall_mem_cons.mpr ⟨alike, othersAlike⟩⟩

end

/-!
## Where steps lead

A way is told of every document at once, so steps are followed once and compared afterwards.
-/

/-- A way from nodes to others, told of every document. -/
abbrev Way := Forest → NodeId → NodeId → Prop

def Way.andThen (one other : Way) : Way := fun forest => Relation.Comp (one forest) (other forest)

/-- Steps that lead from a node, in any document, to the nodes that a way leads to. -/
structure LeadsBy (steps : List Step) (way : Way) : Prop where
  walks : ∀ {σ : Type} {forest : Forest} {document : DocumentId} {root : NodeId} {context : Context σ},
    forest.IsTree document root → context.functions = Registry.core → ∀ start : NodeId → Prop,
      Walks forest document context steps start (fun next => ∃ id, start id ∧ way forest id next)

/-- A way that leads from a node to elements and from the image of the node to their images. -/
structure LedAlike (before : Forest) (first : DocumentId) (after : Forest) (image : NodeId → NodeId)
    (way : Way) (id : NodeId) : Prop where
  elements : ∀ found, way before id found → found ∈ before.nodesOf first ∧ before.isElement found = true
  images : ∀ next, way after (image id) next ↔ ∃ found, way before id found ∧ image found = next

theorem LeadsBy.append {steps others : List Step} {way further : Way}
    (leads : LeadsBy steps way) (leadsOn : LeadsBy others further) :
    LeadsBy (steps ++ others) (way.andThen further) where
  walks tree core start := by
    refine ((leads.walks tree core start).append (leadsOn.walks tree core _)).congr fun next => ?_
    constructor
    · rintro ⟨middle, ⟨id, started, there⟩, further⟩
      exact ⟨id, started, middle, there, further⟩
    · rintro ⟨id, started, middle, there, further⟩
      exact ⟨middle, ⟨id, started, there⟩, further⟩

theorem leads_nil : LeadsBy [] (fun _ id next => id = next) where
  walks _ _ start := (walks_nil start).congr fun next => by simp

/-- Staying at a node leads nowhere else. -/
theorem LeadsBy.behindSelf {steps : List Step} {way : Way} (leads : LeadsBy steps way) :
    LeadsBy (.mk .self .node [] :: steps) way where
  walks tree core start := by
    refine ((walks_along tree .self start).append (leads.walks tree core _)).congr fun next => ?_
    simp [Forest.along]

/-- The first element behind an element. -/
theorem leads_firstSibling :
    LeadsBy [.mk .followingSibling .anyName [Selector.countExpr 1]]
      (fun forest id next => (forest.elementsAlong .followingSibling id).head? = some next) where
  walks {_ forest _ _ _} tree _ start := by
    refine (walks_step tree start (fun id next =>
      (forest.elementsAlong .followingSibling id).head? = some next) ?_).congr ?_
    · intro id _ _
      refine ⟨(forest.elementsAlong .followingSibling id).head?.toList, ?_, fun next => ?_⟩
      · rw [candidates_anyName rfl, keptBy_first]
      · rw [Option.mem_toList]
        refine ⟨fun head => ⟨?_, head⟩, And.right⟩
        exact List.mem_of_mem_filter (List.mem_of_mem_head? head)
    · intro next
      refine exists_congr fun id => and_congr_right fun _ => and_iff_right_of_imp fun head => ?_
      exact List.mem_of_mem_filter (List.mem_of_mem_head? head)

/-- The elements along an axis that have a name and meet conditions. -/
def compoundWay (axis : Axis) (element : Option ElementName) (meanings : List (Forest → NodeId → Prop)) :
    Way := fun forest id next =>
  next ∈ forest.elementsAlong axis id ∧ (∀ name ∈ element, name.Names forest next) ∧
    ∀ meaning ∈ meanings, meaning forest next

section
variable {predicates : List Expr} {meanings : List (Forest → NodeId → Prop)}
variable (means : List.Forall₂ Means predicates meanings) (element : Option ElementName)
include means

theorem leads_compound {axis : Axis} (principal : axis.principalKind = .element) :
    LeadsBy [.mk axis (Selector.nodeTest (element.getD .any)) predicates]
      (compoundWay axis element meanings) where
  walks {_ forest document _ context} tree core start := by
    have answers : List.Forall₂ (AnswersAt forest context fun id =>
        id ∈ forest.nodesOf document ∧ forest.isElement id = true) predicates
        (meanings.map fun meaning => meaning forest) :=
      List.forall₂_map_right_iff.mpr (means.imp fun _ _ given => given.answers tree core)
    refine (walks_compound tree principal element answers start).congr fun next => ?_
    refine exists_congr fun id => and_congr_right fun _ => ?_
    rw [compoundWay, Forest.elementsAlong, List.mem_filter, List.forall_mem_map]
    tauto

/-- A step to children of a node or of what is below it finds what is below the node. -/
theorem leads_descendant :
    LeadsBy [.descendantOrSelf, .mk .child (Selector.nodeTest (element.getD .any)) predicates]
      (compoundWay .descendant element meanings) where
  walks {_ forest _ _ context} tree core start := by
    have child : LeadsBy [.mk .child (Selector.nodeTest (element.getD .any)) predicates]
        (compoundWay .child element meanings) := leads_compound means element rfl
    have below (id next : NodeId) : next ∈ forest.elementsAlong .descendant id ↔
        ∃ above ∈ forest.subtree id, next ∈ forest.elementsAlong .child above := by
      rw [Forest.elementsAlong, Forest.along_descendant]
      simp only [Forest.elementsAlong, List.mem_filter, Forest.along, Forest.mem_descendants_iff,
        ← exists_and_right, and_assoc]
    refine ((walks_along tree .descendantOrSelf start).append (child.walks tree core _)).congr fun next => ?_
    simp only [Forest.along_descendantOrSelf]
    constructor
    · rintro ⟨above, ⟨id, started, under⟩, member, meets⟩
      exact ⟨id, started, (below id next).mpr ⟨above, under, member⟩, meets⟩
    · rintro ⟨id, started, member, meets⟩
      rcases (below id next).mp member with ⟨above, under, member⟩
      exact ⟨above, ⟨id, started, under⟩, member, meets⟩

end

section
variable {before after : Forest} {first second : DocumentId} {image : NodeId → NodeId}

theorem LedAlike.andThen {way further : Way} {id : NodeId}
    (alike : LedAlike before first after image way id)
    (alikeOn : ∀ middle ∈ before.nodesOf first, before.isElement middle = true →
      LedAlike before first after image further middle) :
    LedAlike before first after image (way.andThen further) id where
  elements := by
    rintro found ⟨middle, there, on⟩
    rcases alike.elements middle there with ⟨inside, element⟩
    exact (alikeOn middle inside element).elements found on
  images next := by
    constructor
    · rintro ⟨between, there, on⟩
      rcases (alike.images between).mp there with ⟨middle, reached, rfl⟩
      rcases alike.elements middle reached with ⟨inside, element⟩
      rcases ((alikeOn middle inside element).images next).mp on with ⟨found, met, same⟩
      exact ⟨found, ⟨middle, reached, met⟩, same⟩
    · rintro ⟨found, ⟨middle, there, on⟩, same⟩
      rcases alike.elements middle there with ⟨inside, element⟩
      exact ⟨image middle, (alike.images _).mpr ⟨middle, there, rfl⟩,
        ((alikeOn middle inside element).images next).mpr ⟨found, on, same⟩⟩

theorem ledAlike_self {id : NodeId} (inside : id ∈ before.nodesOf first)
    (element : before.isElement id = true) :
    LedAlike before first after image (fun _ id next => id = next) id where
  elements := by
    rintro _ rfl
    exact ⟨inside, element⟩
  images next := by simp

variable {top bottom : NodeId} (commented : before.Commented first after second image)
variable (tree : before.IsTree first top) (grown : after.IsTree second bottom)
include commented tree

/-- Along an axis where the elements are images of elements, a compound is met by images alike. -/
theorem ledAlike_compound {axis : Axis} (element : Option ElementName)
    {meanings : List (Forest → NodeId → Prop)}
    (asked : ∀ meaning ∈ meanings, AskedAlike before first after image meaning) {id : NodeId}
    (inside : id ∈ before.nodesOf first)
    (along : after.elementsAlong axis (image id) = (before.elementsAlong axis id).map image) :
    LedAlike before first after image (compoundWay axis element meanings) id := by
  have within (found : NodeId) (member : found ∈ before.elementsAlong axis id) :
      found ∈ before.nodesOf first ∧ before.isElement found = true := by
    rcases List.mem_filter.mp member with ⟨reached, isElement⟩
    rw [tree.nodesOf_eq] at inside ⊢
    exact ⟨tree.along_subset axis inside found reached, isElement⟩
  have meets (found : NodeId) (member : found ∈ before.elementsAlong axis id) :
      ((∀ name ∈ element, name.Names after (image found)) ∧
          ∀ meaning ∈ meanings, meaning after (image found)) ↔
        (∀ name ∈ element, name.Names before found) ∧ ∀ meaning ∈ meanings, meaning before found := by
    rcases within found member with ⟨placed, isElement⟩
    exact and_congr
      (forall₂_congr fun name _ => askedAlike_names commented name found placed isElement)
      (forall₂_congr fun meaning listed => asked meaning listed found placed isElement)
  constructor
  · rintro found ⟨member, _⟩
    exact within found member
  · intro next
    constructor
    · rintro ⟨member, met⟩
      rw [along, List.mem_map] at member
      rcases member with ⟨found, member, rfl⟩
      exact ⟨found, ⟨member, (meets found member).mp met⟩, rfl⟩
    · rintro ⟨found, ⟨member, met⟩, rfl⟩
      refine ⟨?_, (meets found member).mpr met⟩
      rw [along]
      exact List.mem_map_of_mem member

include grown

theorem ledAlike_firstSibling {id : NodeId} (inside : id ∈ before.nodesOf first)
    (element : before.isElement id = true) :
    LedAlike before first after image
      (fun forest id next => (forest.elementsAlong .followingSibling id).head? = some next) id where
  elements found head := by
    rcases List.mem_filter.mp (List.mem_of_mem_head? head) with ⟨reached, isElement⟩
    rw [tree.nodesOf_eq] at inside ⊢
    exact ⟨tree.along_subset .followingSibling inside found reached, isElement⟩
  images next := by
    rw [commented.elementsAlong_eq tree grown inside element (by decide), List.head?_map,
      Option.map_eq_some_iff]

theorem exists_compound {compound : Compound}
    (each : ∀ condition ∈ compound.conditions, IsAskedAlike before first after image condition)
    {axis : Axis} {step : Step}
    (read : Selector.compoundStepBy? Selector.readExpr? axis compound = some step) :
    ∃ predicates meanings, step = .mk axis (Selector.nodeTest (compound.element.getD .any)) predicates ∧
      List.Forall₂ Means predicates meanings ∧
      ∀ meaning ∈ meanings, AskedAlike before first after image meaning := by
  rcases Option.map_eq_some_iff.mp read with ⟨predicates, translated, rfl⟩
  rcases exists_meanings commented tree grown each translated with ⟨meanings, means, asked⟩
  exact ⟨predicates, meanings, rfl, means, asked⟩

/-- From any node what is below it is found alike. -/
theorem exists_below {compound : Compound}
    (each : ∀ condition ∈ compound.conditions, IsAskedAlike before first after image condition)
    {step : Step} (read : Selector.compoundStepBy? Selector.readExpr? .child compound = some step) :
    ∃ way, LeadsBy [.descendantOrSelf, step] way ∧
      ∀ id ∈ before.nodesOf first, LedAlike before first after image way id := by
  rcases exists_compound commented tree grown each read with ⟨_, meanings, rfl, means, asked⟩
  refine ⟨_, leads_descendant means compound.element, fun id inside => ?_⟩
  apply ledAlike_compound commented tree compound.element asked inside
  rw [Forest.elementsAlong, Forest.elementsAlong, Forest.along_descendant, Forest.along_descendant]
  exact commented.filter_descendants tree grown inside

/-- From elements what is along an axis near them is found alike. -/
theorem exists_beside {compound : Compound}
    (each : ∀ condition ∈ compound.conditions, IsAskedAlike before first after image condition)
    {axis : Axis} (near : axis ∈ [Axis.self, .child, .followingSibling]) {step : Step}
    (read : Selector.compoundStepBy? Selector.readExpr? axis compound = some step) :
    ∃ way, LeadsBy [step] way ∧ ∀ id ∈ before.nodesOf first, before.isElement id = true →
      LedAlike before first after image way id := by
  have principal : axis.principalKind = .element := by
    simp only [List.mem_cons, List.not_mem_nil, or_false] at near
    rcases near with rfl | rfl | rfl <;> rfl
  rcases exists_compound commented tree grown each read with ⟨_, meanings, rfl, means, asked⟩
  refine ⟨_, leads_compound means compound.element principal, fun id inside element => ?_⟩
  apply ledAlike_compound commented tree compound.element asked inside
  apply commented.elementsAlong_eq tree grown inside element
  simp only [List.mem_cons, List.not_mem_nil, or_false] at near ⊢
  tauto

/-- From elements a link leads alike. -/
theorem exists_link {combinator : Combinator} {compound : Compound}
    (each : ∀ condition ∈ compound.conditions, IsAskedAlike before first after image condition)
    {steps : List Step} (read : Selector.linkStepsBy? Selector.readExpr? combinator compound = some steps) :
    ∃ way, LeadsBy steps way ∧ ∀ id ∈ before.nodesOf first, before.isElement id = true →
      LedAlike before first after image way id := by
  cases combinator with
  | descendant =>
      rcases Option.map_eq_some_iff.mp read with ⟨step, taken, rfl⟩
      rcases exists_below commented tree grown each taken with ⟨way, leads, alike⟩
      exact ⟨way, leads, fun id inside _ => alike id inside⟩
  | child =>
      rcases Option.map_eq_some_iff.mp read with ⟨step, taken, rfl⟩
      exact exists_beside commented tree grown each (by decide) taken
  | nextSibling =>
      rcases Option.map_eq_some_iff.mp read with ⟨step, taken, rfl⟩
      rcases exists_beside commented tree grown each (by decide) taken with ⟨way, leads, alike⟩
      exact ⟨_, leads_firstSibling.append leads, fun id inside element =>
        (ledAlike_firstSibling commented tree grown inside element).andThen alike⟩
  | laterSibling =>
      rcases Option.map_eq_some_iff.mp read with ⟨step, taken, rfl⟩
      exact exists_beside commented tree grown each (by decide) taken

theorem exists_links {links : List (Combinator × Compound)}
    (each : ∀ link ∈ links, ∀ condition ∈ link.2.conditions,
      IsAskedAlike before first after image condition) {lists : List (List Step)}
    (read : links.mapM (fun link => Selector.linkStepsBy? Selector.readExpr? link.1 link.2) = some lists) :
    ∃ way, LeadsBy lists.flatten way ∧ ∀ id ∈ before.nodesOf first, before.isElement id = true →
      LedAlike before first after image way id := by
  have all := Selector.forall₂_of_mapM read
  clear read
  induction all with
  | nil => exact ⟨_, leads_nil, fun id inside element => ledAlike_self inside element⟩
  | @cons steps link lists links given _ ih =>
      rcases List.forall_mem_cons.mp each with ⟨here, each⟩
      rcases exists_link commented tree grown here given with ⟨way, leads, alike⟩
      rcases ih each with ⟨others, leadsOn, alikeOn⟩
      exact ⟨way.andThen others, leads.append leadsOn, fun id inside element =>
        (alike id inside element).andThen alikeOn⟩

/-- A selector leads alike from any node of the document. -/
theorem exists_way {selector : Selector}
    (here : ∀ condition ∈ selector.first.conditions, IsAskedAlike before first after image condition)
    (each : ∀ link ∈ selector.others, ∀ condition ∈ link.2.conditions,
      IsAskedAlike before first after image condition) {steps : List Step}
    (read : Selector.stepsBy? Selector.readExpr? selector = some steps) :
    ∃ way, LeadsBy (.mk .self .node [] :: .descendantOrSelf :: steps) way ∧
      ∀ id ∈ before.nodesOf first, LedAlike before first after image way id := by
  simp only [Selector.stepsBy?, Option.bind_eq_bind, Option.bind_eq_some_iff] at read
  rcases read with ⟨step, taken, lists, others, same⟩
  cases same
  rcases exists_below commented tree grown here taken with ⟨way, leads, alike⟩
  rcases exists_links commented tree grown each others with ⟨further, leadsOn, alikeOn⟩
  exact ⟨way.andThen further, (leads.append leadsOn).behindSelf, fun id inside =>
    (alike id inside).andThen alikeOn⟩

end

/-- An expression that selects what a way leads to from the node in focus. -/
structure SelectsWay (expression : Expr) (way : Way) : Prop where
  selects : ∀ {σ : Type} {forest : Forest} {document : DocumentId} {root : NodeId} {context : Context σ},
    forest.IsTree document root → context.functions = Registry.core → ∀ {focus : Focus} {scope : NodeId},
      scope ∈ forest.nodesOf document → focus.node = some scope →
        Selects forest document context focus expression (way forest scope)

theorem LeadsBy.selectsWay {steps : List Step} {way : Way}
    (leads : LeadsBy (.mk .self .node [] :: .descendantOrSelf :: steps) way) :
    SelectsWay (Selector.fromFocus steps) way where
  selects tree core _ _ inside here :=
    (selects_fromFocus inside here (leads.walks tree core _)).congr fun _ => exists_eq_left

/-- An expression that finds alike from a node and from its image. -/
def FoundAlike (before : Forest) (first : DocumentId) (after : Forest) (image : NodeId → NodeId)
    (expression : Expr) : Prop :=
  ∃ way, SelectsWay expression way ∧
    ∀ id ∈ before.nodesOf first, LedAlike before first after image way id

section
variable {before after : Forest} {first second : DocumentId} {image : NodeId → NodeId}

theorem FoundAlike.union {left right : Expr} (leftAlike : FoundAlike before first after image left)
    (rightAlike : FoundAlike before first after image right) :
    FoundAlike before first after image (.union left right) := by
  rcases leftAlike with ⟨way, selects, alike⟩
  rcases rightAlike with ⟨other, otherSelects, otherAlike⟩
  refine ⟨fun forest id next => way forest id next ∨ other forest id next, ⟨?_⟩, fun id inside => ⟨?_, ?_⟩⟩
  · intro σ forest document root context tree core focus scope inside here
    exact (selects.selects tree core inside here).union tree (otherSelects.selects tree core inside here)
  · rintro found (reached | reached)
    · exact (alike id inside).elements found reached
    · exact (otherAlike id inside).elements found reached
  · intro next
    rw [(alike id inside).images, (otherAlike id inside).images, ← exists_or]
    exact exists_congr fun found => or_and_right.symm

theorem foundAlike_foldl {start : Expr} (startAlike : FoundAlike before first after image start)
    {others : List Expr} (each : ∀ other ∈ others, FoundAlike before first after image other) :
    FoundAlike before first after image (others.foldl .union start) := by
  induction others generalizing start with
  | nil => exact startAlike
  | cons other others ih =>
      rcases List.forall_mem_cons.mp each with ⟨here, each⟩
      exact ih (startAlike.union here) each

variable {top bottom : NodeId} (commented : before.Commented first after second image)
variable (tree : before.IsTree first top) (grown : after.IsTree second bottom)
include commented tree grown

theorem foundAlike_group {group : SelectorGroup} (each : ∀ condition ∈ Selector.conditionsOf group,
    IsAskedAlike before first after image condition) {expression : Expr}
    (read : Selector.groupExprBy? Selector.readExpr? Selector.fromFocus group = some expression) :
    FoundAlike before first after image expression := by
  simp only [Selector.groupExprBy?, Option.bind_eq_bind, Option.bind_eq_some_iff] at read
  rcases read with ⟨lists, taken, same⟩
  have all : ∀ steps ∈ lists, FoundAlike before first after image (Selector.fromFocus steps) := by
    have related := Selector.forall₂_of_mapM taken
    clear taken same
    induction related with
    | nil => exact List.forall_mem_nil _
    | @cons steps selector lists group given _ ih =>
        rw [Selector.conditionsOf, List.flatMap_cons] at each
        simp only [List.mem_append, or_imp, forall_and] at each
        rcases each with ⟨⟨here, links⟩, others⟩
        have behind (link : Combinator × Compound) (member : link ∈ selector.others)
            (condition : Condition) (asked : condition ∈ link.2.conditions) :=
          links condition (List.mem_flatMap.mpr ⟨link, member, asked⟩)
        rcases exists_way commented tree grown here behind given with ⟨way, leads, alike⟩
        exact List.forall_mem_cons.mpr ⟨⟨way, leads.selectsWay, alike⟩, ih others⟩
  cases lists with
  | nil => cases same
  | cons steps others =>
      cases same
      rcases List.forall_mem_cons.mp all with ⟨here, each⟩
      exact foundAlike_foldl here (List.forall_mem_map.mpr each)

/-- What is found alike is found in the same order. -/
theorem FoundAlike.exists_eval {expression : Expr}
    (alike : FoundAlike before first after image expression) {node : NodeId}
    (inside : node ∈ before.nodesOf first) (handler : Option (Handler σ)) (state : σ) :
    ∃ set mirrored,
      expression.eval before { node := some node, handler := handler } state =
        (.ok (.nodeSet set), state) ∧
      expression.eval after { node := some (image node), handler := handler } state =
        (.ok (.nodeSet mirrored), state) ∧
      mirrored.nodes = set.nodes.map image := by
  rcases alike with ⟨way, selects, alike⟩
  rcases alike node inside with ⟨elements, images⟩
  let context : Context σ := { node := some node, handler := handler }
  let other : Context σ := { node := some (image node), handler := handler }
  have found : Selects before first context context.focus expression (way before node) :=
    selects.selects tree rfl inside rfl
  have otherFound : Selects after second other other.focus expression (way after (image node)) :=
    selects.selects grown rfl (commented.image_mem tree grown inside) rfl
  rcases found.exists_eval state with ⟨set, given, lists⟩
  rcases otherFound.exists_eval state with ⟨mirrored, otherGiven, otherLists⟩
  refine ⟨set, mirrored, given, otherGiven, ?_⟩
  apply otherLists.ascending.eq_of_mem_iff
    (commented.ascending_map tree grown lists.ascending fun id member =>
      (elements id ((lists.members id).mp member)).1)
  intro next
  rw [otherLists.members, images, List.mem_map]
  exact exists_congr fun id => and_congr_left fun _ => (lists.members id).symm

end

/-- Conditions with a meaning of their own have predicates. -/
theorem exists_predicate {condition : Condition} (builtIn : condition.isBuiltIn = true) :
    ∃ predicate, Selector.conditionExpr? condition = some predicate := by
  induction condition with
  | elementName _ => exact ⟨_, rfl⟩
  | id _ => exact ⟨_, rfl⟩
  | class_ _ => exact ⟨_, rfl⟩
  | «attribute» _ test => cases test <;> exact ⟨_, rfl⟩
  | negation inner ih =>
      rcases ih builtIn with ⟨body, given⟩
      exact ⟨_, by rw [Selector.conditionExpr?, given]; rfl⟩
  | pseudoClass name arguments =>
      rcases Option.isSome_iff_exists.mp builtIn with ⟨structural, known⟩
      exact ⟨_, pseudoClassExpr?_of_structural known⟩

namespace Selector

theorem exists_mapM_of_each {α β : Type} {translate : α → Option β} {items : List α}
    (each : ∀ item ∈ items, ∃ given, translate item = some given) :
    ∃ all, items.mapM translate = some all := by
  have related : ∀ item ∈ items, ∃ given, translate item = some given ∧ True := fun item member =>
    (each item member).imp fun _ given => ⟨given, trivial⟩
  exact (exists_mapM related).imp fun _ => And.left

theorem exists_step {compound : Compound}
    (builtIn : ∀ condition ∈ compound.conditions, condition.isBuiltIn = true) (axis : Axis) :
    ∃ step, compoundStep? axis compound = some step := by
  rcases exists_mapM_of_each fun condition member => exists_predicate (builtIn condition member) with
    ⟨predicates, translated⟩
  exact ⟨_, by rw [compoundStep?, translated]; rfl⟩

theorem exists_steps {selector : Selector}
    (here : ∀ condition ∈ selector.first.conditions, condition.isBuiltIn = true)
    (others : ∀ link ∈ selector.others, ∀ condition ∈ link.2.conditions, condition.isBuiltIn = true) :
    ∃ steps, steps? selector = some steps := by
  have link (link : Combinator × Compound) (member : link ∈ selector.others) :
      ∃ steps, linkSteps? link.1 link.2 = some steps := by
    rcases link with ⟨combinator, compound⟩
    have step := exists_step (others _ member)
    cases combinator with
    | descendant | child => exact (step .child).elim fun _ given => ⟨_, by rw [linkSteps?, given]; rfl⟩
    | nextSibling => exact (step .self).elim fun _ given => ⟨_, by rw [linkSteps?, given]; rfl⟩
    | laterSibling => exact (step .followingSibling).elim fun _ given => ⟨_, by rw [linkSteps?, given]; rfl⟩
  rcases exists_step here .child with ⟨first, given⟩
  rcases exists_mapM_of_each link with ⟨lists, translated⟩
  exact ⟨_, by rw [steps?, given, translated]; rfl⟩

/-- Alternatives without pseudo-classes of their own have an expression. -/
theorem exists_groupExpr_of_builtIn {group : SelectorGroup} (filled : group ≠ [])
    (builtIn : ∀ condition ∈ conditionsOf group, condition.isBuiltIn = true) :
    ∃ expression, groupExpr? fromFocus group = some expression := by
  have each (selector : Selector) (member : selector ∈ group) : ∃ steps, steps? selector = some steps := by
    have within (condition : Condition) (among : condition ∈ selector.first.conditions ++
        selector.others.flatMap fun link => link.2.conditions) :=
      builtIn condition (List.mem_flatMap.mpr ⟨selector, member, among⟩)
    exact exists_steps (fun condition listed => within condition (List.mem_append_left _ listed))
      fun link linked condition listed => within condition
        (List.mem_append_right _ (List.mem_flatMap.mpr ⟨link, linked, listed⟩))
  rcases exists_mapM_of_each each with ⟨lists, translated⟩
  cases group with
  | nil => exact absurd rfl filled
  | cons selector group =>
      cases lists with
      | nil => cases (Selector.forall₂_of_mapM translated)
      | cons steps lists => exact ⟨_, by rw [groupExpr?, translated]; rfl⟩

end Selector

namespace Query

/-- The path of a selector that is read finds alike in a document and in the document with comments. -/
theorem select_of_read {before after : Forest} {first second : DocumentId} {image : NodeId → NodeId}
    {top bottom : NodeId} (commented : before.Commented first after second image)
    (tree : before.IsTree first top) (grown : after.IsTree second bottom) {selector path : String}
    {group : SelectorGroup} (parsed : Selector.parse? selector = some group)
    (each : ∀ condition ∈ Selector.conditionsOf group, IsAskedAlike before first after image condition)
    (written : selectorPath ".//" selector = .ok path) {expression : Expr}
    (read : Expr.parse? path = some expression) {node : NodeId} (inside : node ∈ before.nodesOf first)
    (handler : Option (Handler σ)) (state : σ) :
    ∃ set mirrored, select before selector node handler state = (.ok set, state) ∧
      select after selector (image node) handler state = (.ok mirrored, state) ∧
      mirrored.nodes = set.nodes.map image := by
  rcases selectorPath_eq_ok written with ⟨other, otherParsed, path_⟩
  rw [parsed] at otherParsed
  cases otherParsed
  rcases Selector.wellFormed_of_parse parsed with ⟨filled, wellFormed⟩
  have structured := Selector.groupExpr_of_parse .focus filled wellFormed path_ read
  have alike := foundAlike_group commented tree grown each structured
  rcases alike.exists_eval commented tree grown inside handler state with
    ⟨set, mirrored, given, otherGiven, same⟩
  exact ⟨set, mirrored, select_of_parse written read given, select_of_parse written read otherGiven, same⟩

/-- Comments between the children of nodes make no difference to a selector without pseudo-classes of its
own: it is refused alike, or it selects in the document with comments the images of what it selects in the
document, in the same order.  Where it asks for empty elements, no comment may be put into one. -/
theorem select_commented {before after : Forest} {first second : DocumentId} {image : NodeId → NodeId}
    (fresh : before.HasFreshDocument first) (freshAfter : after.HasFreshDocument second)
    (commented : before.Commented first after second image) {selector : String} {group : SelectorGroup}
    (parsed : Selector.parse? selector = some group)
    (builtIn : ∀ condition ∈ Selector.conditionsOf group, condition.isBuiltIn = true)
    (calm : (∀ condition ∈ Selector.conditionsOf group, condition.asksEmpty = false) ∨
      before.EmptyKept first after image)
    {node : NodeId} (inside : node ∈ before.nodesOf first) (handler : Option (Handler σ)) (state : σ) :
    (∃ set mirrored, select before selector node handler state = (.ok set, state) ∧
      select after selector (image node) handler state = (.ok mirrored, state) ∧
      mirrored.nodes = set.nodes.map image) ∨
    group.all Selector.isPlain = false ∧
      ∃ error, select before selector node handler state = (.error error, state) ∧
        select after selector (image node) handler state = (.error error, state) := by
  rcases fresh.isTree with ⟨top, tree⟩
  rcases freshAfter.isTree with ⟨bottom, grown⟩
  have each (condition : Condition) (member : condition ∈ Selector.conditionsOf group) :
      IsAskedAlike before first after image condition := by
    refine ⟨builtIn condition member, fun asks => ?_⟩
    refine calm.resolve_left fun never => ?_
    rw [never condition member] at asks
    cases asks
  cases plain : group.all Selector.isPlain with
  | true =>
      have filled := (Selector.wellFormed_of_parse parsed).1
      rcases Selector.exists_groupExpr_of_builtIn filled builtIn with ⟨expression, structured⟩
      rcases selectorPath_of_groupExpr .focus parsed plain structured with ⟨path, written, read⟩
      exact Or.inl (select_of_read commented tree grown parsed each written read inside handler state)
  | false =>
      rcases written : selectorPath ".//" selector with error | path
      · refine Or.inr ⟨rfl, error, ?_, ?_⟩ <;>
        · rw [select_of_unwritten written]
          rfl
      · cases read : Expr.parse? path with
        | none =>
            refine Or.inr ⟨rfl, .malformedExpression path, ?_, ?_⟩ <;>
            · rw [select_of_refused written read]
              rfl
        | some expression =>
            exact Or.inl (select_of_read commented tree grown parsed each written read inside handler state)

/-- The list with comments before its first item, before its second and in its third. -/
def commentedDraft : Draft :=
  .element "ul" [.attribute "class" "main nav"]
    [.comment "first", .element "li" [.attribute "id" "one", .attribute "lang" "en"] [], .text "and",
      .comment "second", .element "li" [.attribute "lang" "en-GB"] [],
      .element "li" [] [.comment "nothing"]]

def commentedDocument : Forest × DocumentId :=
  let planted := (({} : Planting).plant commentedDraft).getD ({}, ⟨0⟩)
  planted.1.forest.openDocument planted.2

theorem fresh_commentedDocument : commentedDocument.1.HasFreshDocument commentedDocument.2 :=
  Forest.JustOpened.hasFreshDocument ⟨{}, _, commentedDraft, _, rfl, rfl, rfl⟩

/-- Where the nodes of the list are in the list with comments. -/
def listImage (id : NodeId) : NodeId := ⟨[0, 2, 3, 4, 5, 7, 8, 10, 11, 12].getD id.index 0⟩

theorem commented_list :
    listDocument.1.Commented listDocument.2 commentedDocument.1 commentedDocument.2 listImage := by
  decide +kernel

theorem select_commented_items :
    Selector.parse? itemSelector = some itemGroup ∧
    ((∃ set mirrored, select listDocument.1 itemSelector ⟨9⟩ (none : Option (Handler Unit)) () =
        (.ok set, ()) ∧
      select commentedDocument.1 itemSelector (listImage ⟨9⟩) (none : Option (Handler Unit)) () =
        (.ok mirrored, ()) ∧ mirrored.nodes = set.nodes.map listImage) ∨
    itemGroup.all Selector.isPlain = false ∧
      ∃ error, select listDocument.1 itemSelector ⟨9⟩ (none : Option (Handler Unit)) () =
          (.error error, ()) ∧
        select commentedDocument.1 itemSelector (listImage ⟨9⟩) (none : Option (Handler Unit)) () =
          (.error error, ())) := by
  have parsed : Selector.parse? itemSelector = some itemGroup := rfl
  have inside : (⟨9⟩ : NodeId) ∈ listDocument.1.nodesOf listDocument.2 := by decide +kernel
  exact ⟨parsed, select_commented fresh_listDocument fresh_commentedDocument commented_list parsed
    (by decide) (Or.inl (by decide)) inside none ()⟩

/-- The last item of the list is empty until there is a comment in it. -/
theorem select_filled :
    listDocument.1.HasFreshDocument listDocument.2 ∧
    commentedDocument.1.HasFreshDocument commentedDocument.2 ∧
    listDocument.1.Commented listDocument.2 commentedDocument.1 commentedDocument.2 listImage ∧
    Selector.parse? "li:empty" = some [⟨⟨some (.named "li"), [.pseudoClass "empty" none]⟩, []⟩] ∧
    (∃ set, (select listDocument.1 "li:empty" ⟨9⟩ (none : Option (Handler Unit)) ()).1 = .ok set ∧
      set.nodes = [⟨3⟩, ⟨6⟩, ⟨7⟩]) ∧
    (∃ set, (select commentedDocument.1 "li:empty" (listImage ⟨9⟩) (none : Option (Handler Unit)) ()).1 =
      .ok set ∧ set.nodes = [⟨4⟩, ⟨8⟩]) ∧
    [⟨4⟩, ⟨8⟩] ≠ [⟨3⟩, ⟨6⟩, ⟨7⟩].map listImage := by
  refine ⟨fresh_listDocument, fresh_commentedDocument, commented_list, rfl, ?_, ?_, by decide⟩
  · exact exists_of_nodes (by decide +kernel)
  · exact exists_of_nodes (by decide +kernel)

end Query

end NodeQuery

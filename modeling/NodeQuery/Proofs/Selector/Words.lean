import NodeQuery.Proofs.Forest.Partition
import NodeQuery.Proofs.Selector.Reading
import NodeQuery.Proofs.Selector.Selection

/-!
# Words of attributes

What a selector that asks for a word of an attribute finds: the elements whose attribute has the pieces of
the value, taken apart at blanks, as a run among its words.  For a value that is a word these are the
elements that have it among the words; several words with blanks between them are found as well, and
nothing is found where there are no words.
-/

namespace NodeQuery

open NodeQuery.Expr Evaluation

variable {σ : Type} {forest : Forest} {document : DocumentId} {root : NodeId}

def Forest.attributeNamed? (forest : Forest) (id : NodeId) (name : String) : Option NodeId :=
  (forest.attributes id).find? fun held => forest.name? held == some name

section
variable (tree : forest.IsTree document root) {id : NodeId} (inside : id ∈ forest.nodesOf document)
include tree inside

/-- The attributes of a name stay as they are listed when they are put in document order. -/
theorem nodes_attributesNamed (name : String) :
    (NodeSet.inDocumentOrder forest (candidates forest .attribute (.named name) id)).nodes =
      candidates forest .attribute (.named name) id := by
  rw [tree.nodesOf_eq] at inside
  have ordered : forest.Ascending (candidates forest .attribute (.named name) id) :=
    (Forest.Ascending.of_ordered (tree.ordered_attributes inside)).sublist List.filter_sublist
  exact NodeSet.nodes_inDocumentOrder_of_ascending tree ordered fun held member =>
    tree.attributes_subset inside held (List.mem_of_mem_filter member)

/-- The path to an attribute shows the first attribute of the name. -/
theorem toText_attribute (name : String) :
    ((Value.nodeSet (NodeSet.inDocumentOrder forest
      (candidates forest .attribute (.named name) id))).toText forest).toList =
        forest.textOf (forest.attributeNamed? id name) := by
  have placed := inside
  rw [tree.nodesOf_eq] at inside
  have accepts : ∀ held ∈ forest.attributes id,
      (NodeTest.named name).accepts forest .attribute held = (forest.name? held == some name) := by
    intro held member
    rw [NodeTest.accepts, (tree.owned id inside).attribute_kind held member]
    rfl
  have listed : candidates forest .attribute (.named name) id =
      (forest.attributes id).filter fun held => forest.name? held == some name :=
    List.filter_congr accepts
  have nodes := nodes_attributesNamed tree placed name
  rw [Value.toText, NodeSet.first?, nodes, listed, List.head?_filter, Forest.attributeNamed?]
  cases (forest.attributes id).find? fun held => forest.name? held == some name with
  | none => rfl
  | some held => rfl

theorem answers_word {context : Context σ} (core : context.functions = Registry.core) {focus : Focus}
    (here : focus.node = some id) (name value : String) :
    Answers forest context focus
      (Selector.attributeMatchExpr (Selector.attributeExpr name) .word value)
      (Text.HasRun (forest.textOf (forest.attributeNamed? id name)) value.toList) := by
  rw [← toText_attribute tree inside]
  exact answers_wordExpr core (evalAt_step forest context here .attribute (.named name)) value

end

namespace Query

/-- A compound of one condition on an attribute has a path, which is no expression if one of the two names
begins with a minus sign. -/
theorem selectorPath_of_signed {start selector : String} {from_ : List Step → Expr}
    (starts : Selector.Starts start from_) {element : Option ElementName} {name : String}
    {test : Option (AttributeMatch × String)}
    (parsed : Selector.parse? selector = some [⟨⟨element, [.attribute name test]⟩, []⟩])
    (signed : (element.all ElementName.isPlain && Selector.isUnsigned name) = false) :
    ∃ path, selectorPath start selector = .ok path ∧ Expr.parse? path = none := by
  let group : SelectorGroup := [⟨⟨element, [.attribute name test]⟩, []⟩]
  have written : ∃ path, Selector.groupPath? start group = some path := by
    cases test <;> exact ⟨_, rfl⟩
  rcases written with ⟨path, written⟩
  rcases Selector.wellFormed_of_parse parsed with ⟨filled, wellFormed⟩
  refine ⟨path, ?_, ?_⟩
  · unfold selectorPath
    rw [parsed]
    dsimp only
    rw [written]
  · refine (Selector.legible_or_refused starts filled wellFormed written).resolve_left fun legible => ?_
    have compound := (legible _ List.mem_cons_self).first
    rcases Bool.and_eq_false_iff.mp signed with named | unsigned
    · cases element with
      | none => cases named
      | some wanted => exact Bool.false_ne_true (named.symm.trans compound.plain)
    · exact (Selector.refused_attribute unsigned test).not_writes
        (compound.conditions _ List.mem_cons_self)

/-- The selector for a word of an attribute, with an element name or without, finds the elements below a
node that have the name and in whose attribute the value is a run of words.  If the value is a word,
these are the elements with the value among the words of the attribute.  A selector in which one of the
names begins with a minus sign has a path that is no expression. -/
theorem select_words (fresh : forest.HasFreshDocument document) {node : NodeId}
    (inside : node ∈ forest.nodesOf document) {selector : String} {element : Option ElementName}
    {name value : String} (parsed : Selector.parse? selector =
      some [⟨⟨element, [.attribute name (some (.word, value))]⟩, []⟩])
    (handler : Option (Handler σ)) (state : σ) :
    ((element.all ElementName.isPlain && Selector.isUnsigned name) = true →
      ∃ set, select forest selector node handler state = (.ok set, state) ∧
        (∀ id, id ∈ set.nodes ↔ id ∈ forest.descendants node ∧ forest.isElement id = true ∧
          (∀ wanted ∈ element, wanted.Names forest id) ∧
            Text.HasRun (forest.textOf (forest.attributeNamed? id name)) value.toList) ∧
        (Text.IsWord value.toList → ∀ id, id ∈ set.nodes ↔
          id ∈ forest.descendants node ∧ forest.isElement id = true ∧
            (∀ wanted ∈ element, wanted.Names forest id) ∧
              value.toList ∈ Text.words (forest.textOf (forest.attributeNamed? id name)))) ∧
    ((element.all ElementName.isPlain && Selector.isUnsigned name) = false →
      ∃ path, select forest selector node handler state = (.error (.malformedExpression path), state)) := by
  constructor
  · intro plain
    rcases fresh.isTree with ⟨root, tree⟩
    let context : Context σ := { node := some node, handler := handler }
    let holds (id : NodeId) : Prop :=
      Text.HasRun (forest.textOf (forest.attributeNamed? id name)) value.toList
    have answers : List.Forall₂ (AnswersAt forest context fun id =>
        id ∈ forest.nodesOf document ∧ forest.isElement id = true)
        [Selector.attributeMatchExpr (Selector.attributeExpr name) .word value] [holds] :=
      .cons (fun _ among _ here => answers_word tree among.1 rfl here name value) .nil
    have principal : Axis.child.principalKind = .element := rfl
    have walks := walks_below tree node fun start =>
      walks_compound tree principal element answers start
    have here : context.focus.node = some node := rfl
    have selects := selects_fromFocus inside here walks
    have isPlain : ([⟨⟨element, [.attribute name (some (.word, value))]⟩, []⟩] : SelectorGroup).all
        Selector.isPlain = true := by
      rcases Bool.and_eq_true_iff.mp plain with ⟨named, unsigned⟩
      simp [Selector.isPlain, Compound.isPlain, Condition.isPlain, named, unsigned]
    rcases select_of_selects parsed isPlain rfl selects state with ⟨set, given, _, members⟩
    have found (id : NodeId) : id ∈ set.nodes ↔ id ∈ forest.descendants node ∧
        forest.isElement id = true ∧ (∀ wanted ∈ element, wanted.Names forest id) ∧ holds id := by
      rw [members, List.forall_mem_singleton]
    refine ⟨set, given, found, fun isWord id => ?_⟩
    rw [found, ← Text.hasRun_iff_mem isWord]
  · intro signed
    rcases selectorPath_of_signed .focus parsed signed with ⟨path, written, refused⟩
    refine ⟨path, ?_⟩
    rw [select_of_refused written refused]
    rfl

theorem select_words_nav :
    (∃ set, select listDocument.1 "ul[class~=nav]" ⟨9⟩ (none : Option (Handler Unit)) () = (.ok set, ()) ∧
      ∀ id, id ∈ set.nodes ↔ id ∈ listDocument.1.descendants ⟨9⟩ ∧
        listDocument.1.isElement id = true ∧
          (∀ wanted ∈ some (ElementName.named "ul"), wanted.Names listDocument.1 id) ∧
            "nav".toList ∈ Text.words
              (listDocument.1.textOf (listDocument.1.attributeNamed? id "class"))) ∧
    ∃ path, select listDocument.1 "ul[-class~=nav]" ⟨9⟩ (none : Option (Handler Unit)) () =
      (.error (.malformedExpression path), ()) := by
  have parsed : Selector.parse? "ul[class~=nav]" =
      some [⟨⟨some (.named "ul"), [.attribute "class" (some (.word, "nav"))]⟩, []⟩] := rfl
  have parsedSigned : Selector.parse? "ul[-class~=nav]" =
      some [⟨⟨some (.named "ul"), [.attribute "-class" (some (.word, "nav"))]⟩, []⟩] := rfl
  have inside : (⟨9⟩ : NodeId) ∈ listDocument.1.nodesOf listDocument.2 := by decide +kernel
  have isWord : Text.IsWord "nav".toList := ⟨by simp, by simp [Text.isSeparator]⟩
  rcases (select_words fresh_listDocument inside parsed none ()).1 rfl with ⟨set, given, _, found⟩
  exact ⟨⟨set, given, found isWord⟩, (select_words fresh_listDocument inside parsedSigned none ()).2 rfl⟩

/-- Two words with a blank between them are found, although they are not one word of the attribute. -/
theorem select_two_words :
    (∃ set, (select listDocument.1 "[class~='main nav']" ⟨9⟩ (none : Option (Handler Unit)) ()).1 =
      .ok set ∧ set.nodes = [⟨8⟩]) ∧
    "main nav".toList ∉ Text.words
      (listDocument.1.textOf (listDocument.1.attributeNamed? ⟨8⟩ "class")) := by
  constructor
  · exact exists_of_nodes (by decide +kernel)
  · decide +kernel

end Query

end NodeQuery

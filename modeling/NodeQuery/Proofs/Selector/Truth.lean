import NodeQuery.Proofs.Function.Call
import NodeQuery.Proofs.Function.Core
import NodeQuery.Proofs.Function.Substring
import NodeQuery.Proofs.Selector.Place

/-!
# Conditions as predicates

At every element of a document the predicate for a standard condition is true exactly if the condition
holds.  An attribute that is missing compares as the empty text in every function, which no standard
value can be told from; only equality looks at whether there is an attribute.
-/

namespace NodeQuery

open NodeQuery.Expr Evaluation

variable {σ : Type} {forest : Forest} {context : Context σ} {focus : Focus}

/-- What an attribute shows as a text, which is empty without an attribute. -/
def Forest.textOf (forest : Forest) (held : Option NodeId) : List Char :=
  ((held.map forest.stringValue).getD "").toList

/-- What the empty text does not meet is met by the text of an attribute that is there. -/
theorem Forest.textOf_iff (holds : List Char → Prop) (refuses : ¬ holds []) (held : Option NodeId) :
    holds (forest.textOf held) ↔ ∃ found ∈ held, holds (forest.stringValue found).toList := by
  cases held with
  | none => simpa [textOf] using refuses
  | some found => simp [textOf]

/-- The empty text meets no comparison with a text that is not empty. -/
theorem AttributeMatch.not_holds_nil (relation : AttributeMatch) {wanted : List Char}
    (filled : wanted ≠ []) : ¬ relation.Holds wanted [] := by
  cases relation with
  | exact => exact fun same => filled same.symm
  | word =>
      rintro ⟨before, after, nothing, _⟩
      have parts := List.append_eq_nil_iff.mp nothing.symm
      exact filled (List.append_eq_nil_iff.mp parts.1).2
  | start => exact fun prefixed => filled (List.prefix_nil.mp prefixed)
  | ending => exact fun suffixed => filled (List.suffix_nil.mp suffixed)
  | inside => exact fun inside => filled (List.infix_nil.mp inside)
  | dashed =>
      rintro (same | prefixed)
      · exact filled same.symm
      · exact filled (List.append_eq_nil_iff.mp (List.prefix_nil.mp prefixed)).1

theorem nodes_inDocumentOrder_toList (held : Option NodeId) :
    (NodeSet.inDocumentOrder forest held.toList).nodes = held.toList := by
  cases held with
  | none => rfl
  | some found => rfl

theorem toText_inDocumentOrder_toList (held : Option NodeId) :
    ((Value.nodeSet (NodeSet.inDocumentOrder forest held.toList)).toText forest).toList =
      forest.textOf held := by
  rw [Value.toText, NodeSet.first?, nodes_inDocumentOrder_toList]
  cases held with
  | none => rfl
  | some found => rfl

theorem holds_texts (first second : String) :
    Comparison.eq.holds forest (.string first) (.string second) = true ↔
      first.toList = second.toList := by
  simp [Comparison.holds, Comparison.ofScalars, Comparison.equalScalars, Value.kind, Value.toText,
    String.toList_inj]

section
variable {target : Expr} {held : Option NodeId}
variable (given : evalAt forest context focus target =
  pure (.nodeSet (NodeSet.inDocumentOrder forest held.toList)))
include given

theorem answers_equal (value : String) :
    Answers forest context focus (.comparison .eq target (.string value))
      (∃ found ∈ held, (forest.stringValue found).toList = value.toList) := by
  apply answers_boolean (evalAt_comparison .eq given (evalAt_string value))
  have each : Comparison.eq.holds forest (.nodeSet (NodeSet.inDocumentOrder forest held.toList))
      (.string value) = held.toList.any fun found =>
        Comparison.eq.holds forest (.string (forest.stringValue found)) (.string value) := by
    simp only [Comparison.holds, nodes_inDocumentOrder_toList]
  rw [each, List.any_eq_true]
  exact exists_congr fun found => and_congr Option.mem_toList (holds_texts _ _)

variable (core : context.functions = Registry.core)
include core

theorem answers_startsWith (value : String) :
    Answers forest context focus (.call "starts-with" [target, .string value])
      (value.toList <+: forest.textOf held) := by
  apply answers_boolean (evalAt_startsWith core given (evalAt_string value))
  rw [toText_inDocumentOrder_toList, List.isPrefixOf_iff_prefix, Value.toText]

theorem answers_contains (value : String) :
    Answers forest context focus (.call "contains" [target, .string value])
      (value.toList <:+: forest.textOf held) := by
  apply answers_boolean (evalAt_contains core given (evalAt_string value))
  rw [toText_inDocumentOrder_toList, Text.occursIn_iff, Value.toText]

theorem answers_endsWith
    (fits : ∀ found ∈ held, (forest.stringValue found).toList.length ≤ 2 ^ 52)
    {value : String} (filled : value.toList ≠ []) :
    Answers forest context focus
      (Selector.attributeMatchExpr target .ending value) (value.toList <:+ forest.textOf held) := by
  have one : evalAt forest context focus (Selector.countExpr 1) =
      pure (.number (Numeral.Decimal.toFloat ⟨1, 0⟩)) := by rw [Selector.countExpr, evalAt]
  have difference := evalAt_arithmetic .sub (evalAt_stringLength core given)
    (evalAt_stringLength core (evalAt_string value))
  have start := evalAt_arithmetic .add difference one
  have whole := evalAt_comparison .eq (evalAt_substring core given start) (evalAt_string value)
  have short : (forest.textOf held).length ≤ 2 ^ 52 := by
    cases held with
    | none => exact Nat.zero_le _
    | some found => exact fits found rfl
  have length : ((Value.nodeSet (NodeSet.inDocumentOrder forest held.toList)).toText forest).length =
      (forest.textOf held).length := by
    rw [← toText_inDocumentOrder_toList, String.length_toList]
  apply answers_boolean whole
  rw [holds_texts, String.toList_ofList, toText_inDocumentOrder_toList,
    ← Function.substring_eq_iff_suffix filled short, String.length_toList, ← length]
  rfl

/-- The comparison of an attribute's value with a standard value. -/
theorem answers_attributeMatch (relation : AttributeMatch) {value : String}
    (fits : relation = .ending → ∀ found ∈ held, (forest.stringValue found).toList.length ≤ 2 ^ 52)
    (standard : relation.isStandard value = true) :
    Answers forest context focus (Selector.attributeMatchExpr target relation value)
      (∃ found ∈ held, relation.Holds value.toList (forest.stringValue found).toList) := by
  cases relation with
  | exact => exact answers_equal given value
  | word =>
      rw [AttributeMatch.isStandard, Bool.and_eq_true, List.all_eq_true] at standard
      have filled : value.toList ≠ [] := by simpa using standard.1
      have isWord : Text.IsWord value.toList :=
        ⟨filled, fun c member => by simpa using standard.2 c member⟩
      refine (answers_wordExpr core given value).congr ?_
      rw [toText_inDocumentOrder_toList, Text.hasRun_iff_mem isWord, Text.mem_words_iff isWord]
      exact Forest.textOf_iff _ (AttributeMatch.word.not_holds_nil filled) held
  | start =>
      have filled : value.toList ≠ [] := by simpa [AttributeMatch.isStandard] using standard
      have refuses := AttributeMatch.start.not_holds_nil filled
      exact (answers_startsWith given core value).congr (Forest.textOf_iff _ refuses held)
  | ending =>
      have filled : value.toList ≠ [] := by simpa [AttributeMatch.isStandard] using standard
      have refuses := AttributeMatch.ending.not_holds_nil filled
      exact (answers_endsWith given core (fits rfl) filled).congr (Forest.textOf_iff _ refuses held)
  | inside =>
      have filled : value.toList ≠ [] := by simpa [AttributeMatch.isStandard] using standard
      have refuses := AttributeMatch.inside.not_holds_nil filled
      exact (answers_contains given core value).congr (Forest.textOf_iff _ refuses held)
  | dashed =>
      have either := Answers.connective .or (answers_equal given value)
        (answers_startsWith given core (value ++ "-"))
      have refuses : ¬ (value ++ "-").toList <+: [] := by simp
      have spelled : (value ++ "-").toList = value.toList ++ ['-'] := by simp
      refine either.congr ?_
      dsimp only
      rw [Forest.textOf_iff _ refuses held, spelled, ← exists_or]
      exact exists_congr fun found => and_or_left.symm

end

/-- The predicate for a pseudo-class with a fixed meaning. -/
def Structural.expr : Structural → Expr
  | .firstChild => .call "not" [Selector.siblingsExpr .precedingSibling]
  | .lastChild => .call "not" [Selector.siblingsExpr .followingSibling]
  | .onlyChild => .connective .and (.call "not" [Selector.siblingsExpr .precedingSibling])
      (.call "not" [Selector.siblingsExpr .followingSibling])
  | .empty => .call "not" [.focusPath [.mk .child .node []]]
  | .root => .call "not" [Selector.siblingsExpr .parent]
  | .nthChild count => .comparison .eq (.call "count" [Selector.siblingsExpr .precedingSibling])
      (Selector.countExpr (count - 1))
  | .nthLastChild count => .comparison .eq (.call "count" [Selector.siblingsExpr .followingSibling])
      (Selector.countExpr (count - 1))

theorem candidates_anyName {axis : Axis} (principal : axis.principalKind = .element) (id : NodeId) :
    candidates forest axis .anyName id = forest.elementsAlong axis id := by
  rw [candidates, Forest.elementsAlong]
  congr 1
  funext other
  rw [NodeTest.accepts, principal, Forest.isElement]

theorem answers_noSiblings (forest : Forest) (core : context.functions = Registry.core) (axis : Axis)
    (principal : axis.principalKind = .element) {id : NodeId} (here : focus.node = some id) :
    Answers forest context focus (.call "not" [Selector.siblingsExpr axis])
      (forest.elementsAlong axis id = []) := by
  have answers := Answers.not core (answers_step forest context here axis .anyName)
  rw [candidates_anyName principal, not_ne_iff] at answers
  exact answers

section
variable {document : DocumentId} {root : NodeId} (tree : forest.IsTree document root)
variable {id : NodeId} (inside : id ∈ forest.nodesOf document)
variable (element : forest.isElement id = true)
include tree inside element

/-- The elements on either side of an element are listed without repetition. -/
theorem nodup_elementsAlong {axis : Axis} (beside : axis = .precedingSibling ∨ axis = .followingSibling) :
    (forest.elementsAlong axis id).Nodup := by
  rw [tree.nodesOf_eq] at inside
  have once := tree.nodup_elementsBeside inside
  rw [tree.elementsBeside_eq inside element, List.nodup_append, List.nodup_reverse, List.nodup_cons] at once
  rcases beside with rfl | rfl
  · exact once.1
  · exact once.2.1.2

/-- The elements on either side of an element are fewer than the children of its parent. -/
theorem length_elementsAlong_lt {most : Nat} (filled : 0 < most)
    (few : ∀ parent ∈ forest.nodesOf document, (forest.children parent).length ≤ most) {axis : Axis}
    (beside : axis = .precedingSibling ∨ axis = .followingSibling) :
    (forest.elementsAlong axis id).length < most := by
  rw [tree.nodesOf_eq] at inside
  have bound : (forest.elementsBeside id).length ≤ most := by
    rw [Forest.elementsBeside]
    cases found : forest.parent? id with
    | none => exact (List.length_filter_le _ _).trans filled
    | some parent =>
        have above := tree.parent?_mem inside found
        rw [← tree.nodesOf_eq] at above
        exact (List.length_filter_le _ _).trans (few parent above)
  rw [tree.elementsBeside_eq inside element, List.length_append, List.length_reverse,
    List.length_cons] at bound
  rcases beside with rfl | rfl <;> omega

/-- The number of elements on one side of an element, compared as a number. -/
theorem answers_siblingAmount (core : context.functions = Registry.core) {axis : Axis}
    (beside : axis = .precedingSibling ∨ axis = .followingSibling) (here : focus.node = some id)
    (count : Nat) :
    Answers forest context focus
      (.comparison .eq (.call "count" [Selector.siblingsExpr axis]) (Selector.countExpr count))
      (Float.ofNat (forest.elementsAlong axis id).length == Numeral.Decimal.toFloat ⟨count, 0⟩) := by
  have principal : axis.principalKind = .element := by rcases beside with rfl | rfl <;> rfl
  have number : evalAt forest context focus (Selector.countExpr count) =
      pure (.number (Numeral.Decimal.toFloat ⟨count, 0⟩)) := by rw [Selector.countExpr, evalAt]
  have siblings := evalAt_step forest context here axis .anyName
  have counted := evalAt_count core siblings rfl
  rw [candidates_anyName principal,
    NodeSet.length_inDocumentOrder (nodup_elementsAlong tree inside element beside)] at counted
  exact answers_boolean (evalAt_comparison .eq counted number) Iff.rfl

/-- What the predicate for a pseudo-class asks of an element, by the elements along the axes. -/
def Structural.Asks (forest : Forest) (id : NodeId) : Structural → Prop
  | .firstChild => forest.elementsAlong .precedingSibling id = []
  | .lastChild => forest.elementsAlong .followingSibling id = []
  | .onlyChild => forest.elementsAlong .precedingSibling id = [] ∧
      forest.elementsAlong .followingSibling id = []
  | .empty => forest.children id = []
  | .root => forest.elementsAlong .parent id = []
  | .nthChild count => Float.ofNat (forest.elementsAlong .precedingSibling id).length ==
      Numeral.Decimal.toFloat ⟨count - 1, 0⟩
  | .nthLastChild count => Float.ofNat (forest.elementsAlong .followingSibling id).length ==
      Numeral.Decimal.toFloat ⟨count - 1, 0⟩

theorem answers_asks (core : context.functions = Registry.core) (here : focus.node = some id)
    (structural : Structural) :
    Answers forest context focus structural.expr (structural.Asks forest id) := by
  have alone (axis : Axis) (principal : axis.principalKind = .element) :=
    answers_noSiblings forest core axis principal here
  cases structural with
  | firstChild => exact alone .precedingSibling rfl
  | lastChild => exact alone .followingSibling rfl
  | onlyChild =>
      exact Answers.connective .and (alone .precedingSibling rfl) (alone .followingSibling rfl)
  | empty =>
      have all : candidates forest .child .node id = forest.children id :=
        List.filter_eq_self.mpr fun _ _ => rfl
      have answers := Answers.not core (answers_step forest context here .child .node)
      rw [all, not_ne_iff] at answers
      exact answers
  | root => exact alone .parent rfl
  | nthChild count => exact answers_siblingAmount tree inside element core (Or.inl rfl) here (count - 1)
  | nthLastChild count =>
      exact answers_siblingAmount tree inside element core (Or.inr rfl) here (count - 1)

/-- Where the numbers are exact, the predicate asks what the pseudo-class asks. -/
theorem asks_iff {structural : Structural} (fits : 2 ^ 53 < structural.count →
      ∀ parent ∈ forest.nodesOf document, (forest.children parent).length ≤ 2 ^ 53) :
    structural.Asks forest id ↔ structural.HoldsAt forest id := by
  have placed := inside
  rw [tree.nodesOf_eq] at placed
  have counted {axis : Axis} (beside : axis = .precedingSibling ∨ axis = .followingSibling) {count : Nat}
      (same : structural.count = count) :
      (Float.ofNat (forest.elementsAlong axis id).length == Numeral.Decimal.toFloat ⟨count - 1, 0⟩) = true ↔
        (forest.elementsAlong axis id).length = count - 1 := by
    apply Numeral.ofNat_beq_toFloat
    by_cases far : 2 ^ 53 < count
    · left
      rw [← same] at far
      exact length_elementsAlong_lt tree inside element (Nat.two_pow_pos 53) (fits far) beside
    · exact .inr (by omega)
  cases structural with
  | firstChild => exact (tree.head?_elementsBeside_iff placed element).symm
  | lastChild => exact (tree.getLast?_elementsBeside_iff placed element).symm
  | onlyChild => exact (tree.elementsBeside_eq_single_iff placed element).symm
  | empty => exact Iff.rfl
  | root =>
      rw [Structural.Asks, Forest.elementsAlong, Forest.along, List.filter_eq_nil_iff, Structural.HoldsAt]
      simp only [Option.mem_toList, Bool.not_eq_true]
  | nthChild count =>
      exact (counted (Or.inl rfl) rfl).trans (tree.getElem?_elementsBeside_iff placed element _).symm
  | nthLastChild count =>
      exact (counted (Or.inr rfl) rfl).trans
        (tree.getElem?_elementsBeside_reverse_iff placed element _).symm

/-- The predicate for a pseudo-class is true where the pseudo-class holds. -/
theorem answers_structural (core : context.functions = Registry.core) (here : focus.node = some id)
    {structural : Structural} (fits : 2 ^ 53 < structural.count →
      ∀ parent ∈ forest.nodesOf document, (forest.children parent).length ≤ 2 ^ 53) :
    Answers forest context focus structural.expr (structural.HoldsAt forest id) :=
  (answers_asks tree inside element core here structural).congr (asks_iff tree inside element fits)

end

/-- A pseudo-class with a fixed meaning has a predicate of its own. -/
theorem pseudoClassExpr?_of_structural {name : String} {arguments : Option (List PseudoArgument)}
    {structural : Structural} (known : Structural.of? name arguments = some structural) :
    Selector.pseudoClassExpr? name arguments = some structural.expr := by
  cases arguments with
  | some given =>
      rw [Structural.of?] at known
      unfold Selector.pseudoClassExpr?
      split at known
      · rename_i forward
        rcases Option.map_eq_some_iff.mp known with ⟨count, counted, rfl⟩
        rw [if_pos forward, Selector.siblingCountExpr?, counted]
        rfl
      · rename_i other
        split at known
        · rename_i backward
          rcases Option.map_eq_some_iff.mp known with ⟨count, counted, rfl⟩
          rw [if_neg other, if_pos backward, Selector.siblingCountExpr?, counted]
          rfl
        · cases known
  | none =>
      rw [Structural.of?, List.lookup_eq_some_iff] at known
      rcases known with ⟨before, after, table, _⟩
      have member : (name, structural) ∈ before ++ (name, structural) :: after := by simp
      rw [← table] at member
      simp only [List.mem_cons, Prod.mk.injEq, List.not_mem_nil, or_false] at member
      rcases member with ⟨rfl, rfl⟩ | ⟨rfl, rfl⟩ | ⟨rfl, rfl⟩ | ⟨rfl, rfl⟩ | ⟨rfl, rfl⟩
      all_goals rfl

/-- Of items with distinct images at most one has a given image. -/
theorem filter_eq_toList_find? {α β : Type} {items : List α} {image : α → β} {test : α → Bool} {wanted : β}
    (once : (items.map image).Nodup) (same : ∀ item ∈ items, test item = true → image item = wanted) :
    items.filter test = (items.find? test).toList := by
  induction items with
  | nil => rfl
  | cons item items ih =>
      rw [List.map_cons, List.nodup_cons] at once
      rcases List.forall_mem_cons.mp same with ⟨here, later⟩
      by_cases passed : test item = true
      · have nothing : items.filter test = [] := by
          rw [List.filter_eq_nil_iff]
          intro other member found
          apply once.1
          rw [here passed, ← later other member found]
          exact List.mem_map_of_mem member
        rw [List.filter_cons_of_pos passed, nothing, List.find?_cons_of_pos passed]
        rfl
      · rw [List.filter_cons_of_neg passed, List.find?_cons_of_neg passed, ih once.2 later]

section
variable {document : DocumentId} {root : NodeId} (tree : forest.IsTree document root)
variable (once : forest.NamesOnce document) {id : NodeId} (inside : id ∈ forest.nodesOf document)
include tree inside

/-- An element has at most one attribute of a name, and it is what the path to it finds. -/
theorem exists_attribute (once : forest.NamesOnce document) (name : String) :
    ∃ held : Option NodeId, candidates forest .attribute (.named name) id = held.toList ∧
      (∀ found ∈ held, found ∈ forest.attributes id) ∧
      ∀ holds, forest.Carries id name holds ↔
        ∃ found ∈ held, holds (forest.stringValue found).toList := by
  have selected (other : NodeId) (member : other ∈ forest.attributes id) :
      (NodeTest.named name).accepts forest .attribute other = true ↔
        forest.name? other = some name := by
    rw [tree.nodesOf_eq] at inside
    have kind := (tree.owned id inside).attribute_kind other member
    rw [NodeTest.accepts, kind]
    simp [Axis.principalKind]
  have single := filter_eq_toList_find? (once id inside) fun other member =>
    (selected other member).mp
  refine ⟨_, single, ?_, ?_⟩
  · intro found given
    exact List.mem_of_find?_eq_some given
  · intro holds
    have members (other : NodeId) :
        other ∈ (forest.attributes id).find? ((NodeTest.named name).accepts forest .attribute) ↔
          other ∈ forest.attributes id ∧ forest.name? other = some name := by
      refine Option.mem_toList.symm.trans ?_
      rw [← single, List.mem_filter]
      exact and_congr_right (selected other)
    rw [Forest.Carries]
    exact exists_congr fun other => by rw [members, and_assoc]

end

/-- The test for an element name at an element. -/
theorem answers_elementName {id : NodeId} (element : forest.isElement id = true)
    (here : focus.node = some id) (name : ElementName) :
    Answers forest context focus (.focusPath [.mk .self (Selector.nodeTest name) []])
      (name.Names forest id) := by
  apply (answers_step forest context here .self _).congr
  have kind : forest.kind id = .element := eq_of_beq element
  cases name with
  | any => simp [candidates, Forest.along, Selector.nodeTest, NodeTest.accepts, kind,
      Axis.principalKind, ElementName.Names]
  | named name => simp [candidates, Forest.along, Selector.nodeTest, NodeTest.accepts, kind,
      Axis.principalKind, ElementName.Names]

theorem isWord_of_isName {name : String} (isName : Selector.IsName name) :
    Text.IsWord name.toList := by
  constructor
  · rcases isName.head with ⟨first, others, spelled, _⟩
    rw [spelled]
    exact List.cons_ne_nil _ _
  · intro c member
    have inside := isName.all c member
    by_contra separator
    rw [Bool.not_eq_false, Text.isSeparator] at separator
    simp only [Bool.or_eq_true, beq_iff_eq] at separator
    rcases separator with (((rfl | rfl) | rfl) | rfl) | rfl
    all_goals cases inside

section
variable {document : DocumentId} {root : NodeId} (tree : forest.IsTree document root)
variable (once : forest.NamesOnce document) (core : context.functions = Registry.core)
include tree once core

/-- A standard condition has a predicate that is true of the elements the condition holds for. -/
theorem exists_conditionExpr {condition : Condition} (wellFormed : condition.WellFormed)
    (standard : condition.isStandard = true) (fits : condition.Fits forest document) :
    ∃ expr, Selector.conditionExpr? condition = some expr ∧
      AnswersAt forest context (fun id => id ∈ forest.nodesOf document ∧ forest.isElement id = true)
        expr (condition.HoldsAt forest ·) := by
  have shown {id : NodeId} (inside : id ∈ forest.nodesOf document) {focus : Focus}
      (here : focus.node = some id) (name : String) :
      ∃ held : Option NodeId,
        evalAt forest context focus (Selector.attributeExpr name) =
          pure (.nodeSet (NodeSet.inDocumentOrder forest held.toList)) ∧
        (∀ found ∈ held, found ∈ forest.attributes id) ∧
        ∀ holds, forest.Carries id name holds ↔
          ∃ found ∈ held, holds (forest.stringValue found).toList := by
    rcases exists_attribute tree inside once name with ⟨held, found, attributes, carries⟩
    refine ⟨held, ?_, attributes, carries⟩
    rw [Selector.attributeExpr, evalAt_step forest context here, found]
  induction condition with
  | elementName name =>
      exact ⟨_, rfl, fun id ⟨inside, element⟩ focus here => answers_elementName element here name⟩
  | id name =>
      refine ⟨_, rfl, fun id ⟨inside, element⟩ focus here => ?_⟩
      rcases shown inside here "id" with ⟨held, given, among, carries⟩
      exact (answers_equal given name).congr
        (carries (AttributeMatch.exact.Holds name.toList)).symm
  | class_ name =>
      refine ⟨_, rfl, fun id ⟨inside, element⟩ focus here => ?_⟩
      rcases shown inside here "class" with ⟨held, given, among, carries⟩
      have isWord := isWord_of_isName wellFormed
      have standard : AttributeMatch.word.isStandard name = true := by
        rw [AttributeMatch.isStandard, Bool.and_eq_true, List.all_eq_true]
        exact ⟨by simpa using isWord.filled, fun c member => by simpa using isWord.unbroken c member⟩
      exact (answers_attributeMatch given core .word (by simp) standard).congr (carries _).symm
  | «attribute» name test =>
      cases test with
      | none =>
          refine ⟨_, rfl, fun id ⟨inside, element⟩ focus here => ?_⟩
          rcases shown inside here name with ⟨held, given, among, carries⟩
          apply answers_nodeSet given
          simp only [nodes_inDocumentOrder_toList, Condition.HoldsAt, carries]
          cases held <;> simp
      | some comparison =>
          refine ⟨_, rfl, fun id ⟨inside, element⟩ focus here => ?_⟩
          rcases shown inside here name with ⟨held, given, among, carries⟩
          rcases comparison with ⟨relation, value⟩
          rw [Condition.isStandard, Bool.and_eq_true, Option.all_some] at standard
          have short : relation = .ending →
              ∀ found ∈ held, (forest.stringValue found).toList.length ≤ 2 ^ 52 := by
            rintro rfl found member
            exact fits id inside found (among found member)
          exact (answers_attributeMatch given core relation short standard.2).congr (carries _).symm
  | negation inner ih =>
      rcases ih wellFormed standard fits with ⟨expr, translated, answers⟩
      refine ⟨.call "not" [expr], ?_, fun id among focus here => ?_⟩
      · rw [Selector.conditionExpr?, translated, Option.map_some]
      · exact Answers.not core (answers id among focus here)
  | pseudoClass name arguments =>
      rcases Option.isSome_iff_exists.mp standard with ⟨structural, known⟩
      refine ⟨structural.expr, pseudoClassExpr?_of_structural known,
        fun id ⟨inside, element⟩ focus here => ?_⟩
      apply (answers_structural tree inside element core here (fits structural known)).congr
      simp only [Condition.HoldsAt, known, Option.some.injEq, exists_eq_left']

end

end NodeQuery

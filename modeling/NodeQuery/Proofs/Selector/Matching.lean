import Mathlib.Algebra.Order.Ring.Int
import NodeQuery.Forest.Document
import NodeQuery.Proofs.Selector.Condition
import NodeQuery.Proofs.Text.Parts

/-!
# What selectors match

The elements a selector asks for, said of the forest alone: what a condition asks of an element, how
a combinator takes one element to the next, and which elements a chain of compounds ends at.  Nothing
here mentions paths, steps or numbers of siblings.
-/

namespace NodeQuery

/-- What the value in a selector asks of the value of an attribute. -/
def AttributeMatch.Holds (relation : AttributeMatch) (wanted held : List Char) : Prop :=
  match relation with
  | .exact => held = wanted
  | .word => Text.HasWord held wanted
  | .start => wanted <+: held
  | .ending => wanted <:+ held
  | .inside => wanted <:+: held
  | .dashed => held = wanted ∨ wanted ++ ['-'] <+: held

/-- Whether a node has an attribute with a name and with a value that something holds of. -/
def Forest.Carries (forest : Forest) (id : NodeId) (name : String) (holds : List Char → Prop) : Prop :=
  ∃ held ∈ forest.attributes id,
    forest.name? held = some name ∧ holds (forest.stringValue held).toList

/-- The elements among the children of a node's parent; a node without a parent is alone. -/
def Forest.elementsBeside (forest : Forest) (id : NodeId) : List NodeId :=
  (((forest.parent? id).map forest.children).getD [id]).filter forest.isElement

/-- The pseudo-classes with a fixed meaning. -/
inductive Structural where
  | firstChild
  | lastChild
  | onlyChild
  | empty
  | root
  | nthChild (count : Nat)
  | nthLastChild (count : Nat)
deriving DecidableEq, Repr

/-- The pseudo-class with a name and arguments.  Those that count take a positive whole number, as far
as `Selector.greatestCount`. -/
def Structural.of? (name : String) : Option (List PseudoArgument) → Option Structural
  | some given =>
    if name == "nth-child" then (Selector.childCount? (some given)).map .nthChild
    else if name == "nth-last-child" then (Selector.childCount? (some given)).map .nthLastChild
    else none
  | none =>
    [("first-child", .firstChild), ("last-child", .lastChild), ("only-child", .onlyChild),
      ("empty", .empty), ("root", .root)].lookup name

/-- What a pseudo-class asks of an element; `empty` asks for no child of any kind. -/
def Structural.HoldsAt (forest : Forest) (id : NodeId) : Structural → Prop
  | .firstChild => (forest.elementsBeside id).head? = some id
  | .lastChild => (forest.elementsBeside id).getLast? = some id
  | .onlyChild => forest.elementsBeside id = [id]
  | .empty => forest.children id = []
  | .root => ∀ parent, forest.parent? id = some parent → forest.isElement parent = false
  | .nthChild count => (forest.elementsBeside id)[count - 1]? = some id
  | .nthLastChild count => (forest.elementsBeside id).reverse[count - 1]? = some id

def ElementName.Names (forest : Forest) (id : NodeId) : ElementName → Prop
  | .any => True
  | .named name => forest.name? id = some name

/-- What a condition asks of an element. -/
def Condition.HoldsAt (forest : Forest) (id : NodeId) : Condition → Prop
  | .elementName name => name.Names forest id
  | .id name => forest.Carries id "id" (AttributeMatch.exact.Holds name.toList)
  | .class_ name => forest.Carries id "class" (AttributeMatch.word.Holds name.toList)
  | .attribute name none => forest.Carries id name fun _ => True
  | .attribute name (some (relation, value)) => forest.Carries id name (relation.Holds value.toList)
  | .negation inner => ¬ inner.HoldsAt forest id
  | .pseudoClass name arguments =>
    ∃ structural, Structural.of? name arguments = some structural ∧ structural.HoldsAt forest id

/-- What a compound asks of a node: it has to be an element and to meet everything that is listed. -/
structure Compound.HoldsAt (compound : Compound) (forest : Forest) (id : NodeId) : Prop where
  element : forest.isElement id = true
  names : ∀ name ∈ compound.element, name.Names forest id
  conditions : ∀ condition ∈ compound.conditions, condition.HoldsAt forest id

/-- How an element lies to the one before it in a chain. -/
def Combinator.Leads (forest : Forest) (start next : NodeId) : Combinator → Prop
  | .descendant => next ∈ forest.descendants start
  | .child => next ∈ forest.children start
  | .nextSibling => ∃ before after, forest.elementsBeside start = before ++ start :: next :: after
  | .laterSibling => ∃ before between after,
      forest.elementsBeside start = before ++ start :: (between ++ next :: after)

/-- Whether the rest of a chain leads from an element to another with all elements on the way below
`scope`. -/
def Selector.LeadsTo (forest : Forest) (scope : NodeId) :
    List (Combinator × Compound) → NodeId → NodeId → Prop
  | [], start, last => start = last
  | (combinator, compound) :: others, start, last =>
    ∃ next ∈ forest.descendants scope, combinator.Leads forest start next ∧
      compound.HoldsAt forest next ∧ LeadsTo forest scope others next last

/-- Whether a selector matches an element with its whole chain below `scope`. -/
def Selector.Matches (selector : Selector) (forest : Forest) (scope id : NodeId) : Prop :=
  ∃ first ∈ forest.descendants scope, selector.first.HoldsAt forest first ∧
    LeadsTo forest scope selector.others first id

/-- Whether a value can be compared in a way that an attribute's value can meet. -/
def AttributeMatch.isStandard (relation : AttributeMatch) (value : String) : Bool :=
  match relation with
  | .exact => true
  | .dashed => true
  | .word => !value.toList.isEmpty && value.toList.all fun c => !Text.isSeparator c
  | .start => !value.toList.isEmpty
  | .ending => !value.toList.isEmpty
  | .inside => !value.toList.isEmpty

/-- Whether a condition has a meaning of its own and names that a path can have. -/
def Condition.isStandard : Condition → Bool
  | .elementName name => name.isPlain
  | .id _ => true
  | .class_ _ => true
  | .attribute name test =>
    Selector.isUnsigned name && test.all fun comparison => comparison.1.isStandard comparison.2
  | .negation inner => inner.isStandard
  | .pseudoClass name arguments => (Structural.of? name arguments).isSome

def Compound.isStandard (compound : Compound) : Bool :=
  compound.element.all ElementName.isPlain && compound.conditions.all Condition.isStandard

def Selector.isStandard (selector : Selector) : Bool :=
  selector.first.isStandard && selector.others.all fun link => link.2.isStandard

theorem Structural.name_isPlain {name : String} {arguments : Option (List PseudoArgument)}
    (known : (Structural.of? name arguments).isSome = true) :
    Selector.isUnsigned name = true ∧ name ∉ Expr.testWords := by
  rcases Option.isSome_iff_exists.mp known with ⟨structural, found⟩
  cases arguments with
  | some given =>
      rw [Structural.of?] at found
      split at found
      · rename_i forward
        rw [eq_of_beq forward]
        decide
      · split at found
        · rename_i backward
          rw [eq_of_beq backward]
          decide
        · cases found
  | none =>
      rw [Structural.of?, List.lookup_eq_some_iff] at found
      rcases found with ⟨before, after, table, _⟩
      have member : (name, structural) ∈ before ++ (name, structural) :: after := by simp
      rw [← table] at member
      simp only [List.mem_cons, Prod.mk.injEq, List.not_mem_nil, or_false] at member
      rcases member with ⟨rfl, _⟩ | ⟨rfl, _⟩ | ⟨rfl, _⟩ | ⟨rfl, _⟩ | ⟨rfl, _⟩
      all_goals decide

theorem Condition.isPlain_of_isStandard {condition : Condition}
    (standard : condition.isStandard = true) : condition.isPlain = true := by
  induction condition with
  | elementName name => exact standard
  | id name => rfl
  | class_ name => rfl
  | «attribute» name test =>
      rw [isStandard, Bool.and_eq_true] at standard
      exact standard.1
  | negation inner ih => exact ih standard
  | pseudoClass name arguments =>
      rcases Structural.name_isPlain standard with ⟨unsigned, callable⟩
      rw [isPlain, unsigned, Bool.true_and, Bool.not_eq_true']
      simpa using callable

theorem Compound.isPlain_of_isStandard {compound : Compound} (standard : compound.isStandard = true) :
    compound.isPlain = true := by
  rw [isStandard, Bool.and_eq_true, List.all_eq_true] at standard
  rw [isPlain, Bool.and_eq_true, List.all_eq_true]
  exact ⟨standard.1, fun condition member =>
    Condition.isPlain_of_isStandard (standard.2 condition member)⟩

/-- Standard selectors are plain. -/
theorem Selector.isPlain_of_isStandard {group : SelectorGroup}
    (standard : group.all Selector.isStandard = true) : group.all Selector.isPlain = true := by
  rw [List.all_eq_true] at standard ⊢
  intro selector member
  have parts := standard selector member
  rw [isStandard, Bool.and_eq_true, List.all_eq_true] at parts
  rw [isPlain, Bool.and_eq_true, List.all_eq_true]
  exact ⟨Compound.isPlain_of_isStandard parts.1, fun link within =>
    Compound.isPlain_of_isStandard (parts.2 link within)⟩

/-- No element of a document has two attributes of one name. -/
def Forest.NamesOnce (forest : Forest) (document : DocumentId) : Prop :=
  ∀ id ∈ forest.nodesOf document, ((forest.attributes id).map forest.name?).Nodup

/-- The place that a pseudo-class asks for, if it asks for one. -/
def Structural.count : Structural → Nat
  | .nthChild count => count
  | .nthLastChild count => count
  | _ => 0

/-- Whether the numbers that a condition is asked with are exact in a document.  The place where an ending
is to start is computed from the length of the value and rounded, which is exact up to `2 ^ 52`.  Siblings
are counted as doubles, which are exact up to `2 ^ 53`, and a place up to there is told from every later
one.  No other condition asks anything of the lengths in a document. -/
def Condition.Fits (forest : Forest) (document : DocumentId) : Condition → Prop
  | .attribute _ (some (.ending, _)) => ∀ id ∈ forest.nodesOf document,
      ∀ held ∈ forest.attributes id, (forest.stringValue held).toList.length ≤ 2 ^ 52
  | .negation inner => inner.Fits forest document
  | .pseudoClass name arguments => ∀ structural ∈ Structural.of? name arguments,
      2 ^ 53 < structural.count → ∀ id ∈ forest.nodesOf document, (forest.children id).length ≤ 2 ^ 53
  | _ => True

/-- Whether all numbers that a compound is asked with are exact in a document. -/
def Compound.Fits (compound : Compound) (forest : Forest) (document : DocumentId) : Prop :=
  ∀ condition ∈ compound.conditions, condition.Fits forest document

/-- Whether all numbers that a selector is asked with are exact in a document. -/
structure Selector.Fits (selector : Selector) (forest : Forest) (document : DocumentId) : Prop where
  first : selector.first.Fits forest document
  others : ∀ link ∈ selector.others, link.2.Fits forest document

end NodeQuery

import NodeQuery.Proofs.Forest.Sibling
import NodeQuery.Proofs.Selector.Matching

/-!
# Places and links along axes

Where an element stands among the elements beside it, and which elements a combinator leads to, said
with the axes that paths follow.
-/

namespace NodeQuery

variable {α : Type}

/-- Without repetition an item is at the place that as many items as the place tells are before. -/
theorem getElem?_append_cons_iff {before after : List α} {item : α}
    (once : (before ++ item :: after).Nodup) (place : Nat) :
    (before ++ item :: after)[place]? = some item ↔ before.length = place := by
  have here : (before ++ item :: after)[before.length]? = some item := by simp
  constructor
  · intro found
    have bound : before.length < (before ++ item :: after).length := by simp
    exact (List.getElem?_inj bound once).mp (here.trans found.symm)
  · rintro rfl
    exact here

theorem append_cons_eq_iff {before after : List α} {item : α}
    (once : (before ++ item :: after).Nodup) (first rest : List α) :
    before ++ item :: after = first ++ item :: rest ↔ before = first ∧ after = rest := by
  rw [List.nodup_middle, List.nodup_cons, List.mem_append, not_or] at once
  constructor
  · intro same
    rcases (List.append_cons_inj_of_notMem once.1.1 once.1.2).mp same with ⟨front, _, back⟩
    exact ⟨front, back⟩
  · rintro ⟨rfl, rfl⟩
    rfl

namespace Forest

variable {forest : Forest}

def elementsAlong (forest : Forest) (axis : Axis) (id : NodeId) : List NodeId :=
  (forest.along axis id).filter forest.isElement

namespace IsTree

variable {document : DocumentId} {root : NodeId} (tree : forest.IsTree document root)
include tree

variable {id : NodeId} (inside : id ∈ forest.subtreeWithAttributes root)
include inside

theorem nodup_elementsBeside : (forest.elementsBeside id).Nodup := by
  rw [elementsBeside]
  cases found : forest.parent? id with
  | none => exact (List.nodup_singleton id).filter _
  | some parent => exact (tree.children_nodup (tree.parent?_mem inside found)).filter _

variable (element : forest.isElement id = true)
include element

/-- The elements beside an element, with the element in its place. -/
theorem elementsBeside_eq :
    forest.elementsBeside id = (forest.elementsAlong .precedingSibling id).reverse ++
      id :: forest.elementsAlong .followingSibling id := by
  rw [elementsBeside, elementsAlong, elementsAlong, along, along]
  cases found : forest.parent? id with
  | none =>
      have preceding : forest.precedingSiblings id = [] := by simp [precedingSiblings, found]
      have following : forest.followingSiblings id = [] := by simp [followingSiblings, found]
      simp [preceding, following, element]
  | some parent =>
      rw [Option.map_some, Option.getD_some,
        tree.children_eq inside (kind_ne_attribute_of_isElement element) found, List.filter_append,
        List.filter_reverse, List.filter_cons_of_pos element]

theorem getElem?_elementsBeside_iff (place : Nat) :
    (forest.elementsBeside id)[place]? = some id ↔
      (forest.elementsAlong .precedingSibling id).length = place := by
  have once := tree.nodup_elementsBeside inside
  rw [tree.elementsBeside_eq inside element] at once ⊢
  rw [getElem?_append_cons_iff once, List.length_reverse]

theorem getElem?_elementsBeside_reverse_iff (place : Nat) :
    (forest.elementsBeside id).reverse[place]? = some id ↔
      (forest.elementsAlong .followingSibling id).length = place := by
  have once := List.nodup_reverse.mpr (tree.nodup_elementsBeside inside)
  rw [tree.elementsBeside_eq inside element, List.reverse_append, List.reverse_cons,
    List.append_assoc, List.singleton_append] at once ⊢
  rw [getElem?_append_cons_iff once, List.length_reverse]

theorem head?_elementsBeside_iff :
    (forest.elementsBeside id).head? = some id ↔
      forest.elementsAlong .precedingSibling id = [] := by
  rw [List.head?_eq_getElem?, tree.getElem?_elementsBeside_iff inside element,
    List.length_eq_zero_iff]

theorem getLast?_elementsBeside_iff :
    (forest.elementsBeside id).getLast? = some id ↔
      forest.elementsAlong .followingSibling id = [] := by
  rw [← List.head?_reverse, List.head?_eq_getElem?,
    tree.getElem?_elementsBeside_reverse_iff inside element, List.length_eq_zero_iff]

theorem elementsBeside_eq_single_iff :
    forest.elementsBeside id = [id] ↔ forest.elementsAlong .precedingSibling id = [] ∧
      forest.elementsAlong .followingSibling id = [] := by
  rw [tree.elementsBeside_eq inside element, ← List.reverse_eq_nil_iff]
  have once := tree.nodup_elementsBeside inside
  rw [tree.elementsBeside_eq inside element] at once
  exact append_cons_eq_iff once [] []

theorem leads_nextSibling_iff (next : NodeId) :
    Combinator.nextSibling.Leads forest id next ↔
      (forest.elementsAlong .followingSibling id).head? = some next := by
  have once := tree.nodup_elementsBeside inside
  rw [Combinator.Leads, tree.elementsBeside_eq inside element] at *
  constructor
  · rintro ⟨before, after, same⟩
    rw [((append_cons_eq_iff once _ _).mp same).2]
    rfl
  · intro head
    rcases List.head?_eq_some_iff.mp head with ⟨after, same⟩
    exact ⟨_, after, by rw [same]⟩

theorem leads_laterSibling_iff (next : NodeId) :
    Combinator.laterSibling.Leads forest id next ↔
      next ∈ forest.elementsAlong .followingSibling id := by
  have once := tree.nodup_elementsBeside inside
  rw [Combinator.Leads, tree.elementsBeside_eq inside element] at *
  constructor
  · rintro ⟨before, between, after, same⟩
    rw [((append_cons_eq_iff once _ _).mp same).2]
    simp
  · intro member
    rcases List.append_of_mem member with ⟨between, after, same⟩
    exact ⟨_, between, after, by rw [same]⟩

end IsTree

end Forest

end NodeQuery

import NodeQuery.Proofs.Expr.Parentheses
import NodeQuery.Proofs.Numeral.Distance
import NodeQuery.Proofs.Selector.Selection

/-!
# Numbers for positions

A number as a predicate stands for the question whether the position is that number.  The number is
told from a position by a tolerance, while the question compares the two exactly, so that they could
keep different nodes.  They do for one number only: the largest one below one passes for the first
position, and no position is equal to it.
-/

namespace NodeQuery

/-- The nodes of a list at the positions that pass a test; the first of them is at position one. -/
def nodesAt (holds : Nat → Bool) (nodes : List NodeId) : List NodeId :=
  ((nodes.zipIdx 1).filter fun placed => holds placed.2).map Prod.fst

section
variable {holds other : Nat → Bool} {nodes : List NodeId}

theorem mem_nodesAt {id : NodeId} :
    id ∈ nodesAt holds nodes ↔ ∃ place, nodes[place]? = some id ∧ holds (place + 1) = true := by
  simp only [nodesAt, List.mem_map, List.mem_filter, Prod.exists, exists_and_right, exists_eq_right,
    List.mk_mem_zipIdx_iff_le_and_getElem?_sub]
  constructor
  · rintro ⟨position, ⟨least, found⟩, passes⟩
    exact ⟨position - 1, found, by rwa [Nat.sub_add_cancel least]⟩
  · rintro ⟨place, found, passes⟩
    exact ⟨place + 1, ⟨Nat.succ_pos place, found⟩, passes⟩

/-- Only the positions up to the length of the list count. -/
theorem nodesAt_congr
    (same : ∀ position, 0 < position → position ≤ nodes.length → holds position = other position) :
    nodesAt holds nodes = nodesAt other nodes := by
  unfold nodesAt
  apply congrArg
  apply List.filter_congr
  rintro ⟨id, position⟩ member
  rcases List.mem_zipIdx member with ⟨least, most, _⟩
  exact same position least (by omega)

end

namespace Expr

open Evaluation

variable {σ : Type} {forest : Forest} {context : Context σ} {holds : Nat → Bool} {nodes : List NodeId}

/-- Whether a number is as close to a position as a number in a predicate has to be. -/
def isCloseTo (x : Float) (position : Nat) : Bool :=
  decide ((x - Float.ofNat position).abs < positionTolerance)

theorem isCloseTo_eq {x : Float} (apart : x ≠ Numeral.justBelowOne) {position : Nat}
    (pos : 0 < position) (bound : position < 2 ^ 64) :
    isCloseTo x position = (Float.ofNat position == x) := by
  rw [isCloseTo, Bool.eq_iff_iff, decide_eq_true_iff, Numeral.abs_sub_ofNat_lt_iff x pos bound]
  exact or_iff_left fun below => apart below.1

theorem isCloseTo_justBelowOne {position : Nat} (pos : 0 < position) (bound : position < 2 ^ 64) :
    isCloseTo Numeral.justBelowOne position = decide (position = 1) := by
  rw [isCloseTo, decide_eq_decide, Numeral.abs_sub_ofNat_lt_iff _ pos bound,
    Numeral.ofNat_beq_justBelowOne pos]
  exact (or_iff_right Bool.false_ne_true).trans (and_iff_right rfl)

theorem keepWhere_zipIdx {test : Focus → Evaluation σ Bool} {last : Nat} {position : Nat}
    (answers : ∀ focus : Focus, test focus = pure (holds focus.position)) :
    keepWhere test last position nodes =
      pure (((nodes.zipIdx position).filter fun placed => holds placed.2).map Prod.fst) := by
  induction nodes generalizing position with
  | nil => rfl
  | cons id ids ih =>
      rw [keepWhere, answers, pure_bind, ih, pure_bind, List.zipIdx_cons, List.filter_cons]
      cases holds position <;> rfl

theorem keptBy_nodesAt {predicate : Expr}
    (answers : ∀ focus : Focus, ∃ value, evalAt forest context focus predicate = pure value ∧
      keeps context predicate.calledFunction? value focus.position = holds focus.position) :
    keptBy forest context [predicate] nodes = pure (nodesAt holds nodes) := by
  have test : ∀ focus : Focus, predicate.testAt forest context focus = pure (holds focus.position) := by
    intro focus
    rcases answers focus with ⟨value, given, kept⟩
    rw [testAt, given, pure_bind, kept]
  rw [keptBy_single, keepWhere_zipIdx test, nodesAt]

/-- A number keeps the nodes at the positions that it is close to. -/
theorem keptBy_number (forest : Forest) (context : Context σ) (x : Float) (nodes : List NodeId) :
    keptBy forest context [.number x] nodes = pure (nodesAt (isCloseTo x) nodes) := by
  apply keptBy_nodesAt
  intro focus
  exact ⟨.number x, by rw [evalAt], rfl⟩

/-- The question for the position keeps the nodes at the positions equal to the number. -/
theorem keptBy_position (core : context.functions = Registry.core) (forest : Forest) (x : Float)
    (nodes : List NodeId) :
    keptBy forest context [.comparison .eq (.call "position" []) (.number x)] nodes =
      pure (nodesAt (fun position => Float.ofNat position == x) nodes) := by
  apply keptBy_nodesAt
  intro focus
  have position : evalAt forest context focus (.call "position" []) =
      pure (.number (Float.ofNat focus.position)) :=
    evalAt_call evalAll_nil (by rw [core]; rfl) rfl
  have number : evalAt forest context focus (.number x) = pure (.number x) := by rw [evalAt]
  exact ⟨_, evalAt_comparison .eq position number, rfl⟩

end Expr

namespace Query

open Evaluation

variable {σ : Type} {forest : Forest} {context : Context σ} {source : String}

/-- A text that evaluates to nodes is read as an expression for them. -/
theorem exists_evalAt_of_evaluate {state after : σ} {set : NodeSet}
    (given : evaluate forest source context state = (.ok (.nodeSet set), after)) :
    ∃ expr raw, Expr.parse? source = some expr ∧
      Expr.evalAt forest context context.focus expr state = (.ok (.nodeSet raw), after) ∧
      raw.nodes = set.nodes := by
  cases read : Expr.parse? source with
  | none =>
      unfold evaluate Program.compile at given
      rw [read] at given
      cases given
  | some expr =>
      rw [evaluate_of_parse read, Expr.eval, bind_apply] at given
      rcases outcome : Expr.evalAt forest context context.focus expr state with ⟨_ | value, rest⟩
      · rw [outcome] at given
        cases given
      · rw [outcome] at given
        cases value with
        | nodeSet raw =>
            cases given
            exact ⟨expr, raw, rfl, outcome, (NodeSet.nodes_decorate raw _).symm⟩
        | boolean truth => cases given
        | number amount => cases given
        | string text => cases given

/-- A predicate behind a text in parentheses filters the nodes that the text gives. -/
theorem evaluate_enclosed_filter {state after : σ} {set : NodeSet}
    (given : evaluate forest source context state = (.ok (.nodeSet set), after)) {predicate : String}
    {test : Expr} (tested : Expr.parse? predicate = some test) {kept : List NodeId}
    (keeps : Expr.keptBy forest context [test] set.nodes = pure kept) :
    evaluate forest ("(" ++ source ++ ")[" ++ predicate ++ "]") context state =
      (.ok (.nodeSet ((NodeSet.inDocumentOrder forest kept).decorate forest
        (context.document? forest))), after) := by
  rcases exists_evalAt_of_evaluate given with ⟨expr, raw, read, outcome, same⟩
  have filtered : Expr.evalAt forest context context.focus (.filter expr [test]) state =
      (.ok (.nodeSet (NodeSet.inDocumentOrder forest kept)), after) := by
    rw [Expr.evalAt, bind_apply, outcome]
    simp only [requireNodes, pure_bind]
    rw [same, keeps]
    rfl
  rw [evaluate_of_parse (Expr.parse?_enclosed_filter read tested), Expr.eval, bind_apply, filtered]
  rfl

section
variable (core : context.functions = Registry.core) {literal : String} {x : Float}
variable (numeral : Expr.numeral literal.toList = some (x, [])) {state after : σ} {set : NodeSet}
variable (given : evaluate forest source context state = (.ok (.nodeSet set), after))
include numeral given

theorem evaluate_number_filter :
    evaluate forest ("(" ++ source ++ ")[" ++ literal ++ "]") context state =
      (.ok (.nodeSet ((NodeSet.inDocumentOrder forest (nodesAt (Expr.isCloseTo x) set.nodes)).decorate
        forest (context.document? forest))), after) := by
  have tested := Expr.parse?_of_body (Expr.Operand.of_numeral numeral).body (Nat.le_add_left 1 _)
  exact evaluate_enclosed_filter given tested (Expr.keptBy_number forest context x set.nodes)

include core

theorem evaluate_position_filter :
    evaluate forest ("(" ++ source ++ ")[position() = " ++ literal ++ "]") context state =
      (.ok (.nodeSet ((NodeSet.inDocumentOrder forest
        (nodesAt (fun position => Float.ofNat position == x) set.nodes)).decorate forest
          (context.document? forest))), after) := by
  have position : Expr.Operand 0 ("position".toList ++ ['(', ')']) (.call "position" []) :=
    Expr.Operand.callNone (.simple (by decide)) (by decide)
  have body := Expr.Body.equal position (Expr.Operand.of_numeral numeral)
  have spelled : ("position() = " ++ literal).toList =
      "position".toList ++ ['(', ')'] ++ ' ' :: '=' :: ' ' :: literal.toList := by
    simp
  rw [← spelled] at body
  have whole : "(" ++ source ++ ")[position() = " ++ literal ++ "]" =
      "(" ++ source ++ ")[" ++ ("position() = " ++ literal) ++ "]" := by
    apply String.toList_injective
    simp
  rw [whole]
  exact evaluate_enclosed_filter given (Expr.parse?_of_body body (Nat.le_add_left 1 _))
    (Expr.keptBy_position core forest x set.nodes)

/-- A number literal as a predicate keeps the nodes that the question for the position with it keeps,
those at positions equal to the number, unless it is the largest number below one: that one keeps the
first node, whose position is not equal to it. -/
theorem number_filter_eq_position_filter (short : set.nodes.length < 2 ^ 64) :
    ∃ byNumber byPosition,
      evaluate forest ("(" ++ source ++ ")[" ++ literal ++ "]") context state =
        (.ok (.nodeSet byNumber), after) ∧
      evaluate forest ("(" ++ source ++ ")[position() = " ++ literal ++ "]") context state =
        (.ok (.nodeSet byPosition), after) ∧
      (∀ id, id ∈ byPosition.nodes ↔
        ∃ place, set.nodes[place]? = some id ∧ (Float.ofNat (place + 1) == x) = true) ∧
      (x ≠ Numeral.justBelowOne → byNumber = byPosition) ∧
      (x = Numeral.justBelowOne → byPosition.nodes = [] ∧
        ∀ id, id ∈ byNumber.nodes ↔ set.nodes.head? = some id) := by
  refine ⟨_, _, evaluate_number_filter numeral given, evaluate_position_filter core numeral given,
    fun id => ?_, fun apart => ?_, ?_⟩
  · rw [NodeSet.nodes_decorate, NodeSet.mem_inDocumentOrder, mem_nodesAt]
  · rw [nodesAt_congr fun position pos most => Expr.isCloseTo_eq apart pos (by omega)]
  · rintro rfl
    refine ⟨List.eq_nil_iff_forall_not_mem.mpr fun id => ?_, fun id => ?_⟩
    · rw [NodeSet.nodes_decorate, NodeSet.mem_inDocumentOrder, mem_nodesAt]
      rintro ⟨place, found, equal⟩
      have inside : place < set.nodes.length := (List.getElem?_eq_some_iff.mp found).1
      rw [Numeral.ofNat_beq_justBelowOne (Nat.succ_pos place)] at equal
      cases equal
    · rw [NodeSet.nodes_decorate, NodeSet.mem_inDocumentOrder, nodesAt_congr fun position pos most =>
        Expr.isCloseTo_justBelowOne pos (by omega), mem_nodesAt, List.head?_eq_getElem?]
      simp

end

/-- The items of a list. -/
theorem evaluate_items :
    evaluate listDocument.1 "//li" ({ node := some ⟨9⟩ } : Context Unit) () =
      (.ok (.nodeSet ⟨[⟨3⟩, ⟨6⟩, ⟨7⟩], some listDocument.2, some []⟩), ()) := by
  with_unfolding_all rfl

theorem number_filter_eq_position_filter_items :
    let context : Context Unit := { node := some ⟨9⟩ }
    let items : List NodeId := [⟨3⟩, ⟨6⟩, ⟨7⟩]
    ∃ byNumber byPosition,
      evaluate listDocument.1 ("(" ++ "//li" ++ ")[" ++ "2" ++ "]") context () =
        (.ok (.nodeSet byNumber), ()) ∧
      evaluate listDocument.1 ("(" ++ "//li" ++ ")[position() = " ++ "2" ++ "]") context () =
        (.ok (.nodeSet byPosition), ()) ∧
      (∀ id, id ∈ byPosition.nodes ↔
        ∃ place, items[place]? = some id ∧ (Float.ofNat (place + 1) == Float.ofNat 2) = true) ∧
      (Float.ofNat 2 ≠ Numeral.justBelowOne → byNumber = byPosition) ∧
      (Float.ofNat 2 = Numeral.justBelowOne → byPosition.nodes = [] ∧
        ∀ id, id ∈ byNumber.nodes ↔ items.head? = some id) := by
  have numeral : Expr.numeral "2".toList = some (Float.ofNat 2, []) := by decide +kernel
  exact number_filter_eq_position_filter rfl numeral evaluate_items (by decide)

/-- The largest number below one keeps the first item, which is not at a position equal to it. -/
theorem number_filter_below_one :
    let context : Context Unit := { node := some ⟨9⟩ }
    ∃ byNumber byPosition,
      evaluate listDocument.1 "(//li)[0.9999999999999999]" context () =
        (.ok (.nodeSet byNumber), ()) ∧
      evaluate listDocument.1 "(//li)[position() = 0.9999999999999999]" context () =
        (.ok (.nodeSet byPosition), ()) ∧
      byNumber.nodes = [⟨3⟩] ∧ byPosition.nodes = [] := by
  have numeral : Expr.numeral "0.9999999999999999".toList = some (Numeral.justBelowOne, []) := by
    decide +kernel
  have byNumber : "(//li)[0.9999999999999999]" =
      "(" ++ "//li" ++ ")[" ++ "0.9999999999999999" ++ "]" := by decide +kernel
  have byPosition : "(//li)[position() = 0.9999999999999999]" =
      "(" ++ "//li" ++ ")[position() = " ++ "0.9999999999999999" ++ "]" := by decide +kernel
  rw [byNumber, byPosition]
  refine ⟨_, _, evaluate_number_filter numeral evaluate_items,
    evaluate_position_filter rfl numeral evaluate_items, ?_, ?_⟩
  · decide +kernel
  · decide +kernel

end Query

end NodeQuery

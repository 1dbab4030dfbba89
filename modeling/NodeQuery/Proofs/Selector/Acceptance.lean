import NodeQuery.Proofs.Expr.Failure
import NodeQuery.Proofs.Selector.Reflection
import NodeQuery.Proofs.Selector.Selection

/-!
# Selectors that are accepted

A selector is read from a text exactly if the grammar matches the whole of it, and the path put together
from the tree is the one written for what is read.  Putting together refuses a tree for one reason only,
that a pseudo-class for counting is not given a count.
-/

namespace NodeQuery

open Text (Reader ParseTree Peg Atomicity Grammar)
open Text.Reader
open Text.Grammar

variable {σ : Type}

namespace Selector

variable {α : Type} {whole : List Char} {bound : Nat}

/-- From the trees inside a rule the path is put together that is written for what is read, and there is
none exactly if something in them is miscounted. -/
def RendersBy (rule : Rule) (build : List (ParseTree Rule) → Option String) (path : α → Option String) :
    Meaning Rule α := fun value used trees =>
  used ≠ [] ∧ ∃ parts, trees = [.node rule used parts] ∧ build parts = path value ∧
    ((∃ part ∈ parts, Miscounted part) ↔ path value = none)

/-- A condition with its tree in a compound. -/
def ConditionOf (condition : Condition) (tree : ParseTree Rule) : Prop :=
  ∃ used inner, tree = .node .simple used [inner] ∧ treeCondition? inner = conditionPath? condition ∧
    (Miscounted inner ↔ conditionPath? condition = none)

theorem conditionOf_of_renders {condition : Condition} {used : List Char} {trees : List (ParseTree Rule)}
    (renders : RendersInside .simple condition used trees) :
    ∃ tree, trees = [tree] ∧ ConditionOf condition tree := by
  rcases renders with ⟨_, rfl, _, inner, rfl, made, miscounted⟩
  exact ⟨_, rfl, used, inner, rfl, made, miscounted⟩

section
variable {conditions : List Condition} {trees : List (ParseTree Rule)}
variable (of : List.Forall₂ ConditionOf conditions trees)
include of

theorem treeStep?_eq (element predicates : String) :
    treeStep? element predicates trees =
      (predicatesPath? conditions).map (element ++ predicates ++ ·) := by
  induction of generalizing predicates with
  | nil => simp [treeStep?, predicatesPath?]
  | @cons condition tree _ _ first _ ih =>
      rcases first with ⟨used, inner, rfl, made, _⟩
      rw [treeStep?, made, predicatesPath?]
      cases conditionPath? condition with
      | none => rfl
      | some body =>
          change treeStep? element (predicates ++ "[" ++ body ++ "]") _ = _
          rw [ih]
          cases predicatesPath? _ with
          | none => rfl
          | some others => simp [String.append_assoc]

theorem miscounted_conditions :
    (∃ tree ∈ trees, Miscounted tree) ↔ predicatesPath? conditions = none := by
  induction of with
  | nil => simp [predicatesPath?]
  | @cons condition tree conditions trees first _ ih =>
      rcases first with ⟨used, inner, rfl, _, miscounted⟩
      rw [List.exists_mem_cons_iff, ih, miscounted_node (by decide) (by decide), predicatesPath?]
      simp only [List.mem_singleton, exists_eq_left, miscounted]
      cases conditionPath? condition with
      | none => simp
      | some body => cases predicatesPath? conditions <;> simp

end

theorem reflects_conditions :
    Reflects grammar whole bound .spaced (.many (.rule .simple)) (many simple)
      (fun conditions _ trees => List.Forall₂ ConditionOf conditions trees) := by
  have filled (condition : Condition) (used : List Char) (trees : List (ParseTree Rule))
      (renders : RendersInside .simple condition used trees) : used ≠ [] := by
    rcases renders with ⟨_, _, filled, _⟩
    exact filled
  exact (reflects_simple.manyTight filled (tight _)).mono fun _ _ _ each =>
    forall₂_of_each each fun _ _ _ => conditionOf_of_renders

theorem compoundPath?_eq_map (compound : Compound) :
    compoundPath? compound =
      (predicatesPath? compound.conditions).map (elementTest (compound.element.getD .any) ++ ·) := by
  rw [compoundPath?]
  cases predicatesPath? compound.conditions <;> rfl

theorem reflects_compound :
    Reflects grammar whole bound .spaced (.rule .compound) compound
      (RendersBy .compound (treeStep? "*" "") compoundPath?) := by
  have element : Reflects grammar whole bound .spaced
      (.seq (.rule .typeSel) (.many (.rule .simple)))
      (do
        let element ← elementName
        let conditions ← many simple
        pure ⟨some element, conditions⟩)
      (fun taken used parts => used ≠ [] ∧ treeStep? "*" "" parts = compoundPath? taken ∧
        ((∃ part ∈ parts, Miscounted part) ↔ compoundPath? taken = none)) := by
    refine Reflects.tight (tight _) reflects_elementName ?_
    rintro element used _ ⟨filled, same, parts, rfl, calm⟩
    apply reflects_conditions.map
    intro conditions _ trees of
    rw [compoundPath?_eq_map, Option.map_eq_none_iff, ← miscounted_conditions of, List.singleton_append,
      treeStep?, treeStep?_eq of, List.exists_mem_cons_iff]
    exact ⟨by simp [filled], by simp [same], by simp [calm]⟩
  have bare : Reflects grammar whole bound .spaced
      (.seq (.rule .simple) (.many (.rule .simple)))
      (do
        let first ← simple
        let others ← many simple
        pure ⟨none, first :: others⟩)
      (fun taken used parts => used ≠ [] ∧ treeStep? "*" "" parts = compoundPath? taken ∧
        ((∃ part ∈ parts, Miscounted part) ↔ compoundPath? taken = none)) := by
    refine Reflects.tight (tight _) reflects_simple ?_
    intro first used trees renders
    apply reflects_conditions.map
    intro others _ otherTrees of
    rcases conditionOf_of_renders renders with ⟨tree, rfl, first⟩
    rcases renders with ⟨_, _, filled, _⟩
    have all := List.Forall₂.cons first of
    rw [compoundPath?_eq_map, Option.map_eq_none_iff, ← miscounted_conditions all, List.singleton_append,
      treeStep?_eq all]
    exact ⟨by simp [filled], by simp [elementTest], Iff.rfl⟩
  apply (reflects_rule .compound (by decide) (by decide) (element.choice bare)).mono
  rintro taken used _ ⟨parts, ⟨filled, made, miscounted⟩, rfl⟩
  exact ⟨filled, parts, rfl, made, miscounted⟩

/-- A combinator shows its sign alone. -/
theorem reflects_combinator :
    Reflects grammar whole bound .spaced (.rule .combinator) combinator
      (fun joined used trees => used ≠ [] ∧ ∃ leaf,
        trees = [.node .combinator used [.node (.combinatorSign joined) leaf []]]) := by
  have signed (joined : Combinator) (sign : String) (some_ : sign.toList ≠ [])
      (body : (Rule.combinatorSign joined).body = .text sign) :
      Reflects grammar whole bound .spaced (Rule.signed joined) (combinatorSign sign joined)
        (fun joined used parts => used ≠ [] ∧ ∃ leaf,
          parts = [.node (.combinatorSign joined) leaf []]) := by
    have inside : Reflects grammar whole bound ((Rule.combinatorSign joined).kind.inside .spaced)
        (Rule.combinatorSign joined).body (token sign) _ := body ▸ reflects_token sign
    refine Reflects.tight (tight _) reflects_blanks ?_
    rintro _ _ _ rfl
    refine Reflects.tight (tight _) (reflects_rule _ nofun (by decide) inside) ?_
    rintro _ used _ ⟨_, ⟨rfl, rfl⟩, rfl⟩
    apply reflects_blanks.map
    rintro _ _ _ rfl
    exact ⟨by simp [some_], _, rfl⟩
  have descendant : Reflects grammar whole bound .spaced (.rule (.combinatorSign .descendant))
      (do let _ ← run1 isBlank; pure .descendant)
      (fun joined used parts => used ≠ [] ∧ ∃ leaf,
        parts = [.node (.combinatorSign joined) leaf []]) := by
    have inside : Reflects grammar whole bound ((Rule.combinatorSign .descendant).kind.inside .spaced)
        (Rule.combinatorSign .descendant).body (run1 isBlank) _ :=
      (isClass_blank whole _).run1 (tight _)
    apply (reflects_rule (.combinatorSign .descendant) nofun (by decide) inside).map
    rintro _ used _ ⟨_, ⟨_, filled, _, rfl⟩, rfl⟩
    exact ⟨filled, used, rfl⟩
  have body := (signed .child ">" (by decide) rfl).choice ((signed .nextSibling "+" (by decide) rfl).choice
    ((signed .laterSibling "~" (by decide) rfl).choice descendant))
  apply (reflects_rule .combinator (by decide) (by decide) body).mono
  rintro joined used _ ⟨_, ⟨filled, leaf, rfl⟩, rfl⟩
  exact ⟨filled, leaf, rfl⟩

/-- A combinator and the compound behind it, with their trees. -/
def LinkOf : Meaning Rule (Combinator × Compound) := fun link used trees =>
  used ≠ [] ∧ ∃ sign leaf text parts,
    trees = [.node .combinator sign [.node (.combinatorSign link.1) leaf []], .node .compound text parts] ∧
      treeStep? "*" "" parts = compoundPath? link.2 ∧
      ((∃ part ∈ parts, Miscounted part) ↔ compoundPath? link.2 = none)

theorem reflects_link :
    Reflects grammar whole bound .spaced (.seq (.rule .combinator) (.rule .compound))
      (do
        let joined ← combinator
        let next ← compound
        pure (joined, next)) LinkOf := by
  refine Reflects.tight (tight _) reflects_combinator ?_
  rintro joined sign _ ⟨filled, leaf, rfl⟩
  apply reflects_compound.map
  rintro next text _ ⟨_, parts, rfl, made, miscounted⟩
  exact ⟨by simp [filled], sign, leaf, text, parts, rfl, made, miscounted⟩

section
variable {links : List (Combinator × Compound)} {trees : List (ParseTree Rule)}
variable (each : LinkOf.Each links trees)
include each

theorem treePath?_eq (path : String) :
    treePath? path trees = (othersPath? links).map (path ++ ·) := by
  induction each generalizing path with
  | nil => simp [treePath?, othersPath?]
  | @cons link links _ _ others first _ ih =>
      rcases first with ⟨_, sign, leaf, text, parts, rfl, made, _⟩
      change treePath? path (.node .combinator sign [.node (.combinatorSign link.1) leaf []] ::
        .node .compound text parts :: others) = _
      rw [treePath?, treePath?, made, othersPath?, treeCombinator]
      cases compoundPath? link.2 with
      | none => rfl
      | some step =>
          change treePath? (path ++ combinatorPath link.1 ++ step) others = _
          rw [ih]
          cases othersPath? links with
          | none => rfl
          | some rest => simp [String.append_assoc]

theorem miscounted_links :
    (∃ tree ∈ trees, Miscounted tree) ↔ othersPath? links = none := by
  induction each with
  | nil => simp [othersPath?]
  | @cons link links _ _ others first _ ih =>
      rcases first with ⟨_, sign, leaf, text, parts, rfl, _, miscounted⟩
      have calm : ¬ Miscounted (.node .combinator sign [.node (.combinatorSign link.1) leaf []]) := by
        simp [miscounted_node]
      have inside : Miscounted (.node .compound text parts) ↔ compoundPath? link.2 = none :=
        (miscounted_node (by decide) (by decide) _ _).trans miscounted
      rw [List.cons_append, List.singleton_append, List.exists_mem_cons_iff, List.exists_mem_cons_iff, ih,
        inside, othersPath?]
      cases compoundPath? link.2 with
      | none => simp
      | some step => cases othersPath? links <;> simp [calm]

end

theorem reflects_chain (start : String) :
    Reflects grammar whole bound .spaced (.rule .selector) chain
      (RendersBy .selector (treePath? start) (path? start)) := by
  have body : Reflects grammar whole bound .spaced Rule.selector.body chain
      (fun taken used parts => used ≠ [] ∧ treePath? start parts = path? start taken ∧
        ((∃ part ∈ parts, Miscounted part) ↔ path? start taken = none)) := by
    refine Reflects.tight (tight _) reflects_compound ?_
    rintro first used _ ⟨filled, parts, rfl, made, miscounted⟩
    apply (reflects_link.manyTight (fun _ _ _ means => means.1) (tight _)).map
    intro others _ trees each
    refine ⟨by simp [filled], ?_, ?_⟩
    · rw [List.singleton_append, treePath?, made, path?]
      cases compoundPath? first with
      | none => rfl
      | some step =>
          change treePath? (start ++ step) trees = _
          rw [treePath?_eq each]
          cases othersPath? others <;> rfl
    · rw [List.singleton_append, List.exists_mem_cons_iff, miscounted_links each,
        miscounted_node (by decide) (by decide), miscounted, path?]
      cases compoundPath? first with
      | none => simp
      | some step => cases othersPath? others <;> simp
  apply (reflects_rule .selector (by decide) (by decide) body).mono
  rintro taken used _ ⟨parts, ⟨filled, made, miscounted⟩, rfl⟩
  exact ⟨filled, parts, rfl, made, miscounted⟩

/-- A selector and its tree. -/
def SelectorOf (start : String) (selector : Selector) (tree : ParseTree Rule) : Prop :=
  ∃ used parts, tree = .node .selector used parts ∧ treePath? start parts = path? start selector ∧
    (Miscounted tree ↔ path? start selector = none)

theorem selectorOf_of_renders {start : String} {selector : Selector} {used : List Char}
    {trees : List (ParseTree Rule)}
    (renders : RendersBy .selector (treePath? start) (path? start) selector used trees) :
    ∃ tree, trees = [tree] ∧ SelectorOf start selector tree := by
  rcases renders with ⟨_, parts, rfl, made, miscounted⟩
  exact ⟨_, rfl, used, parts, rfl, made, (miscounted_node (by decide) (by decide) _ _).trans miscounted⟩

section
variable {start : String} {selectors : List Selector} {trees : List (ParseTree Rule)}
variable (of : List.Forall₂ (SelectorOf start) selectors trees)
include of

theorem mapM_treePath?_eq {others : List (ParseTree Rule)} (apart : others.filterMap selectorParts? = []) :
    ((trees ++ others).filterMap selectorParts?).mapM (treePath? start) =
      selectors.mapM (path? start) := by
  induction of with
  | nil => rw [List.nil_append, apart]; rfl
  | cons first _ ih =>
      rcases first with ⟨used, parts, rfl, made, _⟩
      have parted : selectorParts? (.node .selector used parts) = some parts := rfl
      rw [List.cons_append, List.filterMap_cons_some parted, List.mapM_cons, made, ih, List.mapM_cons]

theorem miscounted_selectors :
    (∃ tree ∈ trees, Miscounted tree) ↔ selectors.mapM (path? start) = none := by
  induction of with
  | nil => simp
  | @cons selector tree selectors trees first _ ih =>
      rcases first with ⟨_, _, _, _, miscounted⟩
      rw [List.exists_mem_cons_iff, ih, miscounted, List.mapM_cons]
      cases path? start selector with
      | none => simp
      | some path => cases selectors.mapM (path? start) <;> simp

end

theorem reflects_endOfInput :
    Reflects grammar whole bound .spaced (.rule .endOfInput) finish
      (fun _ used trees => used = [] ∧ trees = [.node .endOfInput [] []]) := by
  have body : Reflects grammar whole bound .spaced Rule.endOfInput.body finish _ := reflects_finish
  apply (reflects_rule .endOfInput (by decide) (by decide) body).mono
  rintro _ _ _ ⟨_, ⟨rfl, rfl⟩, rfl⟩
  exact ⟨rfl, rfl⟩

/-- The tree of a whole text is translated to the path written for the alternatives that are read. -/
def Translates (start : String) : Meaning Rule SelectorGroup := fun selectors _ parts =>
  ∀ text, translate? start (.node .selectorGroup text parts) = groupPath? start selectors ∧
    (Miscounted (.node .selectorGroup text parts) ↔ groupPath? start selectors = none)

theorem reflects_whole (start : String) :
    Reflects grammar whole bound .spaced
      (.seq Rule.blanks (.seq (.rule .selector) (.seq (.many (Rule.behindComma .selector))
        (.seq Rule.blanks (.rule .endOfInput)))))
      (do
        let selectors ← group
        finish
        pure selectors) (Translates start) := by
  unfold group
  simp only [bind_assoc, pure_bind]
  refine Reflects.tight (tight _) reflects_blanks ?_
  rintro _ _ _ rfl
  refine Reflects.tight (tight _) (reflects_chain start) ?_
  intro first _ trees renders
  have alternative : Reflects grammar whole bound .spaced (.rule .selector) chain
      (RendersBy .selector (treePath? start) (path? start)) := reflects_chain start
  have next := (reflects_behindComma alternative).manyTight (fun _ _ _ means => means.1) (tight _)
  refine Reflects.tight (tight _) next ?_
  intro others _ otherTrees each
  refine Reflects.tight (tight _) reflects_blanks ?_
  rintro _ _ _ rfl
  apply reflects_endOfInput.map
  rintro _ _ _ ⟨rfl, rfl⟩ text
  rcases selectorOf_of_renders renders with ⟨tree, rfl, firstOf⟩
  have all := List.Forall₂.cons firstOf (forall₂_of_each each fun _ _ _ means =>
    means.2.elim fun _ given => selectorOf_of_renders given)
  have ended : [ParseTree.node Rule.endOfInput [] []].filterMap selectorParts? = [] := rfl
  have spelled : [] ++ ([tree] ++ (otherTrees ++ ([] ++ [.node .endOfInput [] []]))) =
      tree :: otherTrees ++ [.node .endOfInput [] []] := rfl
  rw [spelled, groupPath?]
  constructor
  · rw [translate?, mapM_treePath?_eq all ended]
  · rw [miscounted_node (by decide) (by decide), Option.map_eq_none_iff, ← miscounted_selectors all]
    simp [not_miscounted_leaf]

theorem ended_of_finish {reader : Reader α} {text rest : List Char} {value : α}
    (given : (do let taken ← reader; finish; pure taken : Reader α) text = some (value, rest)) :
    rest = [] := by
  rcases exists_of_bind given with ⟨taken, left, _, ending⟩
  rcases exists_of_bind ending with ⟨_, behind, finished, same⟩
  cases same
  cases left with
  | nil =>
      cases finished
      rfl
  | cons c others => cases finished

/-- A text that is read is matched, and its tree is translated to the path for what is read. -/
theorem matches_of_parse? {text : String} {selectors : SelectorGroup} (start : String)
    (read : parse? text = some selectors) :
    ∃ tree, grammar.Matches .selectorGroup text.toList tree ∧
      translate? start tree = groupPath? start selectors ∧
      (Miscounted tree ↔ groupPath? start selectors = none) := by
  rw [parse?, whole?, Option.map_eq_some_iff] at read
  rcases read with ⟨⟨taken, rest⟩, given, rfl⟩
  have ended := ended_of_finish given
  subst ended
  rcases (reflects_whole start).takes _ _ _ (Nat.lt_succ_self _) given with
    ⟨used, trees, _, derives, translates⟩
  have all : grammar.Derives text.toList .spaced Rule.selectorGroup.body text.toList (some (trees, [])) :=
    .seq .start (by rwa [tight])
  have matched : grammar.Derives text.toList .spaced (.rule .selectorGroup) text.toList _ :=
    .rule (List.append_nil text.toList).symm all
  exact ⟨.node .selectorGroup text.toList trees, matched, translates text.toList⟩

/-- A text that is refused is not matched. -/
theorem not_matched_of_parse? {text : String} (refused : parse? text = none) :
    grammar.Derives text.toList .spaced (.rule .selectorGroup) text.toList none := by
  rw [parse?, whole?, Option.map_eq_none_iff] at refused
  have body : grammar.Derives text.toList .spaced Rule.selectorGroup.body text.toList none := by
    refine .seqNotSecond .start ?_
    rw [tight]
    exact (reflects_whole "").refuses _ (Nat.lt_succ_self _) refused
  exact .ruleNot body

/-- Putting together a tree that the grammar gives is refused exactly where a pseudo-class for counting is
not given a count. -/
theorem translate?_eq_none_iff {text : String} {tree : ParseTree Rule}
    (matched : grammar.Matches .selectorGroup text.toList tree) (start : String) :
    translate? start tree = none ↔ Miscounted tree := by
  cases read : parse? text with
  | none => cases matched.unique (not_matched_of_parse? read)
  | some selectors =>
      rcases matches_of_parse? start read with ⟨other, otherMatched, translated, miscounted⟩
      cases matched.unique otherMatched
      rw [translated, miscounted]

/-- A text that is refused as a selector: the grammar does not match all of it, or a pseudo-class for
counting in it, however deep, is not given a count. -/
def IsRefusedText (text : String) : Prop :=
  (¬ ∃ tree, grammar.Matches .selectorGroup text.toList tree) ∨
    ∃ tree, grammar.Matches .selectorGroup text.toList tree ∧ Miscounted tree

end Selector

theorem Error.OfEvaluation.code_ne {error : Error} (known : error.OfEvaluation) :
    error.code ≠ some .selectorText := by
  intro grouped
  cases error with
  | refusedSelector _ _ => exact known
  | _ => cases grouped

namespace Query

/-- The path for a selector is what its tree is translated to. -/
theorem selectorPath_of_matches {selector : String} {tree : ParseTree Selector.Rule}
    (matched : Selector.grammar.Matches .selectorGroup selector.toList tree) (start : String) :
    selectorPath start selector = match Selector.translate? start tree with
      | none => .error (.refusedSelector selector .unsupported)
      | some path => .ok path := by
  unfold selectorPath
  cases read : Selector.parse? selector with
  | none => cases matched.unique (Selector.not_matched_of_parse? read)
  | some selectors =>
      rcases Selector.matches_of_parse? start read with ⟨other, otherMatched, translated, _⟩
      cases matched.unique otherMatched
      cases made : Selector.groupPath? start selectors with
      | none => simp only [translated, made]
      | some path => simp only [translated, made]

theorem selectorPath_of_unmatched {selector : String}
    (unmatched : ¬ ∃ tree, Selector.grammar.Matches .selectorGroup selector.toList tree)
    (start : String) :
    selectorPath start selector = .error (.refusedSelector selector .malformed) := by
  unfold selectorPath
  cases read : Selector.parse? selector with
  | none => rfl
  | some selectors =>
      rcases Selector.matches_of_parse? start read with ⟨tree, matched, _⟩
      exact absurd ⟨tree, matched⟩ unmatched

/-- A refused text is refused for itself, whatever the path would start with. -/
theorem selectorPath_of_isRefusedText {selector : String} (refused : Selector.IsRefusedText selector)
    (start : String) :
    ∃ reason, selectorPath start selector = .error (.refusedSelector selector reason) := by
  rcases refused with unmatched | ⟨tree, matched, miscounted⟩
  · exact ⟨_, selectorPath_of_unmatched unmatched start⟩
  · rw [selectorPath_of_matches matched, (Selector.translate?_eq_none_iff matched start).mpr miscounted]
    exact ⟨_, rfl⟩

theorem selectorPath_error_iff (start selector : String) :
    (∃ error, selectorPath start selector = .error error) ↔ Selector.IsRefusedText selector := by
  constructor
  · rintro ⟨error, refused⟩
    refine or_iff_not_imp_left.mpr fun matched => ?_
    rcases not_not.mp matched with ⟨tree, matched⟩
    refine ⟨tree, matched, (Selector.translate?_eq_none_iff matched start).mp ?_⟩
    rw [selectorPath_of_matches matched] at refused
    cases translated : Selector.translate? start tree with
    | none => rfl
    | some path =>
        rw [translated] at refused
        cases refused
  · intro refused
    rcases selectorPath_of_isRefusedText refused start with ⟨reason, refusal⟩
    exact ⟨_, refusal⟩

/-- Evaluating a path never fails for the text of a selector. -/
theorem code_of_evaluateAt {forest : Forest} {path : String} {node : Option NodeId}
    {handler : Option (Handler σ)} {state : σ} {error : Error}
    (failed : (evaluateAt forest path node handler state).1 = .error error) :
    error.code ≠ some .selectorText := by
  cases read : Expr.parse? path with
  | none =>
      rw [evaluateAt_of_refused read] at failed
      cases failed
      intro impossible
      cases impossible
  | some expr =>
      rw [evaluateAt_of_parse read] at failed
      have fails : Evaluation.Fails (expr.eval forest { node := node, handler := handler }) :=
        Expr.fails_eval (fun _ _ _ resolved => Registry.core_fails resolved) expr
      have known := fails state error failed
      exact known.code_ne

theorem select_of_isRefusedText {selector : String} (refused : Selector.IsRefusedText selector)
    (forest : Forest) (node : NodeId) (handler : Option (Handler σ)) (state : σ) :
    ∃ reason, select forest selector node handler state =
      (.error (.refusedSelector selector reason), state) := by
  rcases selectorPath_of_isRefusedText refused ".//" with ⟨reason, refusal⟩
  refine ⟨reason, ?_⟩
  rw [select_of_unwritten refusal]
  rfl

theorem isRefusedText_of_select {forest : Forest} {selector : String} {node : NodeId}
    {handler : Option (Handler σ)} {state : σ} {error : Error}
    (failed : (select forest selector node handler state).1 = .error error)
    (grouped : error.code = some .selectorText) : Selector.IsRefusedText selector := by
  rw [← selectorPath_error_iff ".//" selector]
  unfold select at failed
  rcases written : selectorPath ".//" selector with refusal | path
  · exact ⟨refusal, rfl⟩
  · rw [written] at failed
    dsimp only at failed
    rw [Evaluation.bind_apply] at failed
    rcases outcome : evaluateAt forest path (some node) handler state with ⟨other | value, after⟩
    · rw [outcome] at failed
      cases failed
      exact absurd grouped (code_of_evaluateAt (congrArg Prod.fst outcome))
    · rw [outcome] at failed
      cases value <;> cases failed <;> cases grouped

/-- There is no path for a selector exactly if its text is refused, and selecting fails for the text of a
selector exactly then, before any call is made. -/
theorem refused_iff (selector : String) :
    ((∃ error, pathOfSelector selector = .error error) ↔ Selector.IsRefusedText selector) ∧
    ∀ {σ : Type} (forest : Forest) (node : NodeId) (handler : Option (Handler σ)) (state : σ),
      ((∃ error, (select forest selector node handler state).1 = .error error ∧
        error.code = some .selectorText) ↔ Selector.IsRefusedText selector) ∧
      (Selector.IsRefusedText selector →
        (select forest selector node (handler.map Handler.recording) (state, [])).2 = (state, [])) := by
  refine ⟨selectorPath_error_iff "//" selector, fun forest node handler state => ⟨⟨?_, ?_⟩, ?_⟩⟩
  · rintro ⟨error, failed, grouped⟩
    exact isRefusedText_of_select failed grouped
  · intro refused
    rcases select_of_isRefusedText refused forest node handler state with ⟨reason, outcome⟩
    exact ⟨_, congrArg Prod.fst outcome, rfl⟩
  · intro refused
    rcases select_of_isRefusedText refused forest node (handler.map Handler.recording) (state, []) with
      ⟨reason, outcome⟩
    rw [outcome]

end Query

end NodeQuery

import NodeQuery.Proofs.Expr.Grammar
import NodeQuery.Proofs.Selector.Path

/-!
# Calls of pseudo-classes

A pseudo-class without a fixed meaning stands for a call of the function it is named like: first the
node in focus, then the arguments as they are written.  These calls are found in the expression that
the path of a selector is read as, wherever in the selector the pseudo-class stands, provided that
the names of the selector can stand in a path.  A name that cannot stand there is lost: no expression
that is read from a path calls a function by such a name.
-/

namespace NodeQuery

namespace Selector

/-- Whether a pseudo-class has no fixed meaning.  Two have one always, and some more have one where
they stand without parentheses. -/
def isCustom (name : String) (arguments : Option (List PseudoArgument)) : Bool :=
  !(["nth-child", "nth-last-child"].contains name) && (arguments.isSome ||
    !(["first-child", "last-child", "only-child", "empty", "root"].contains name))

end Selector

/-- The call that a condition asks for, at whatever depth of negation. -/
def Condition.customCalls : Condition → List (String × List Expr)
  | .elementName _ | .id _ | .class_ _ | .attribute _ _ => []
  | .negation inner => inner.customCalls
  | .pseudoClass name arguments =>
    if Selector.isCustom name arguments then
      [(name, .focus :: (arguments.getD []).map Selector.argumentExpr)]
    else []

def Compound.customCalls (compound : Compound) : List (String × List Expr) :=
  compound.conditions.flatMap Condition.customCalls

def Selector.customCalls (selector : Selector) : List (String × List Expr) :=
  selector.first.customCalls ++ selector.others.flatMap fun link => link.2.customCalls

namespace Selector

open NodeQuery.Expr (callsOfAll callsOfSteps mem_callsOfAll mem_callsOfSteps)

theorem pseudoClassExpr?_of_custom {name : String} {arguments : Option (List PseudoArgument)}
    (custom : isCustom name arguments = true) :
    pseudoClassExpr? name arguments = some (callExpr name (arguments.getD [])) := by
  rw [isCustom, Bool.and_eq_true, Bool.not_eq_true'] at custom
  have counting := custom.1
  simp only [List.contains_cons, List.contains_nil, Bool.or_false, Bool.or_eq_false_iff] at counting
  delta pseudoClassExpr?
  simp only [counting, Bool.false_eq_true, if_false]
  cases arguments with
  | some given => rfl
  | none =>
      have named := custom.2
      simp only [Option.isSome_none, Bool.false_or, Bool.not_eq_true', List.contains_cons,
        List.contains_nil, Bool.or_false, Bool.or_eq_false_iff] at named
      simp only [named, Bool.false_eq_true, if_false, Option.getD_none]

theorem calls_of_conditionExpr {condition : Condition} {body : Expr}
    (given : conditionExpr? condition = some body) : condition.customCalls ⊆ body.calls := by
  induction condition generalizing body with
  | elementName name => exact List.nil_subset _
  | id name => exact List.nil_subset _
  | class_ name => exact List.nil_subset _
  | «attribute» name test => exact List.nil_subset _
  | negation inner ih =>
      rw [conditionExpr?, Option.map_eq_some_iff] at given
      rcases given with ⟨innerBody, innerGiven, rfl⟩
      intro call member
      rw [Expr.calls]
      apply List.mem_cons_of_mem
      exact mem_callsOfAll.mpr ⟨innerBody, List.mem_singleton_self _, ih innerGiven member⟩
  | pseudoClass name arguments =>
      rw [Condition.customCalls]
      split
      · rename_i custom
        rw [conditionExpr?, pseudoClassExpr?_of_custom custom] at given
        cases given
        rw [callExpr, Expr.calls]
        exact List.cons_subset.mpr ⟨List.mem_cons_self, List.nil_subset _⟩
      · exact List.nil_subset _

theorem exists_of_mapM {α β : Type} {translate : α → Option β} {items : List α} {values : List β}
    (given : items.mapM translate = some values) :
    ∀ item ∈ items, ∃ value ∈ values, translate item = some value := by
  induction items generalizing values with
  | nil => exact fun _ member => absurd member List.not_mem_nil
  | cons first others ih =>
      rw [List.mapM_cons] at given
      rcases translated : translate first with _ | value
      · rw [translated] at given
        cases given
      · rw [translated] at given
        rcases translatedOthers : others.mapM translate with _ | rest
        · rw [translatedOthers] at given
          cases given
        · rw [translatedOthers] at given
          cases given
          intro item member
          rcases List.mem_cons.mp member with rfl | later
          · exact ⟨value, List.mem_cons_self, translated⟩
          · rcases ih translatedOthers item later with ⟨other, listed, same⟩
            exact ⟨other, List.mem_cons_of_mem _ listed, same⟩

theorem calls_of_compoundStep {axis : Axis} {compound : Compound} {step : Step}
    (given : compoundStep? axis compound = some step) :
    compound.customCalls ⊆ callsOfAll step.predicates := by
  rw [compoundStep?, Option.map_eq_some_iff] at given
  rcases given with ⟨predicates, translated, rfl⟩
  intro call member
  rcases List.mem_flatMap.mp member with ⟨condition, listed, inside⟩
  rcases exists_of_mapM translated condition listed with ⟨body, bodyListed, bodyGiven⟩
  exact mem_callsOfAll.mpr ⟨body, bodyListed, calls_of_conditionExpr bodyGiven inside⟩

theorem calls_of_linkSteps {combinator : Combinator} {compound : Compound} {steps : List Step}
    (given : linkSteps? combinator compound = some steps) :
    compound.customCalls ⊆ callsOfSteps steps := by
  have last (axis : Axis) (lead : List Step)
      (given : (compoundStep? axis compound).map (fun step => lead ++ [step]) = some steps) :
      compound.customCalls ⊆ callsOfSteps steps := by
    rcases Option.map_eq_some_iff.mp given with ⟨step, translated, rfl⟩
    intro call member
    apply mem_callsOfSteps.mpr
    exact ⟨step, List.mem_append_right _ (List.mem_singleton_self _),
      calls_of_compoundStep translated member⟩
  cases combinator with
  | descendant => exact last .child [.descendantOrSelf] given
  | child => exact last .child [] given
  | nextSibling => exact last .self [.mk .followingSibling .anyName [countExpr 1]] given
  | laterSibling => exact last .followingSibling [] given

theorem calls_of_steps {selector : Selector} {taken : List Step} (given : steps? selector = some taken) :
    selector.customCalls ⊆ callsOfSteps taken := by
  rw [steps?] at given
  rcases first : compoundStep? .child selector.first with _ | step
  · rw [first] at given
    cases given
  · rw [first] at given
    rcases others : selector.others.mapM (fun link => linkSteps? link.1 link.2) with _ | lists
    · rw [Option.bind_eq_bind, Option.bind_some, others] at given
      cases given
    · rw [Option.bind_eq_bind, Option.bind_some, others] at given
      cases given
      intro call member
      apply mem_callsOfSteps.mpr
      rcases List.mem_append.mp member with front | later
      · exact ⟨step, List.mem_cons_self, calls_of_compoundStep first front⟩
      · rcases List.mem_flatMap.mp later with ⟨link, listed, inside⟩
        rcases exists_of_mapM others link listed with ⟨steps, stepsListed, stepsGiven⟩
        rcases mem_callsOfSteps.mp (calls_of_linkSteps stepsGiven inside) with ⟨other, held, found⟩
        exact ⟨other, List.mem_cons_of_mem _ (List.mem_flatten.mpr ⟨steps, stepsListed, held⟩), found⟩

theorem Starts.calls_subset {start : String} {from_ : List Step → Expr} (starts : Starts start from_)
    (steps : List Step) : callsOfSteps steps ⊆ (from_ steps).calls := by
  intro call member
  rcases mem_callsOfSteps.mp member with ⟨step, listed, inside⟩
  cases starts with
  | root =>
      rw [fromRoot, Expr.calls]
      exact mem_callsOfSteps.mpr ⟨step, List.mem_cons_of_mem _ listed, inside⟩
  | focus =>
      rw [fromFocus, Expr.calls]
      have behind := List.mem_cons_of_mem Step.descendantOrSelf listed
      exact mem_callsOfSteps.mpr ⟨step, List.mem_cons_of_mem _ behind, inside⟩

theorem calls_of_foldl_union (first : Expr) (others : List Expr) :
    ∀ alternative ∈ first :: others, alternative.calls ⊆ (others.foldl .union first).calls := by
  induction others generalizing first with
  | nil =>
      intro alternative member
      rw [List.mem_singleton.mp member]
      exact List.Subset.refl _
  | cons second others ih =>
      have joined : (Expr.union first second).calls ⊆
          (others.foldl Expr.union (Expr.union first second)).calls :=
        ih (.union first second) _ List.mem_cons_self
      rw [Expr.calls] at joined
      intro alternative member
      rcases List.mem_cons.mp member with rfl | later
      · exact List.Subset.trans (List.subset_append_left _ _) joined
      · rcases List.mem_cons.mp later with rfl | later
        · exact List.Subset.trans (List.subset_append_right _ _) joined
        · exact ih (.union first second) alternative (List.mem_cons_of_mem _ later)

theorem calls_of_groupExpr {start : String} {from_ : List Step → Expr} (starts : Starts start from_)
    {group : SelectorGroup} {expr : Expr} (given : groupExpr? from_ group = some expr) :
    group.flatMap Selector.customCalls ⊆ expr.calls := by
  delta groupExpr? at given
  rcases translated : group.mapM steps? with _ | lists
  · rw [translated] at given
    cases given
  · rw [translated, Option.bind_eq_bind, Option.bind_some] at given
    cases lists with
    | nil => cases given
    | cons first others =>
        cases given
        intro call member
        rcases List.mem_flatMap.mp member with ⟨selector, listed, inside⟩
        rcases exists_of_mapM translated selector listed with ⟨taken, takenListed, takenGiven⟩
        have alternative : from_ taken ∈ from_ first :: others.map from_ := by
          rw [← List.map_cons]
          exact List.mem_map_of_mem takenListed
        apply calls_of_foldl_union (from_ first) (others.map from_) _ alternative
        exact starts.calls_subset taken (calls_of_steps takenGiven inside)

end Selector

namespace Query

/-- The path of a selector behind either start is read back as the expression that the selector has
there. -/
theorem selectorPath_reads {start selector path : String} {from_ : List Step → Expr}
    {group : SelectorGroup} (starts : Selector.Starts start from_)
    (parsed : Selector.parse? selector = some group) (plain : group.all Selector.isPlain = true)
    (accepted : selectorPath start selector = .ok path) :
    ∃ expr, Selector.groupExpr? from_ group = some expr ∧ Expr.parse? path = some expr := by
  rcases selectorPath_eq_ok accepted with ⟨other, otherParsed, written⟩
  rw [parsed] at otherParsed
  cases otherParsed
  rcases Selector.wellFormed_of_parse parsed with ⟨filled, wellFormed⟩
  have related := Selector.parse?_groupPath starts filled wellFormed plain
  rw [written] at related
  rcases structured : Selector.groupExpr? from_ group with _ | expr
  · rw [structured] at related
    cases related
  · rw [structured] at related
    cases related with
    | some reads => exact ⟨expr, rfl, reads⟩

/-- Let the names of a selector be such as can stand in a path.  Then its path is an expression that
calls, for each pseudo-class without a fixed meaning, the function it is named like, with the node in
focus as the first argument.  In any case what the path is read as calls functions only by names that
calls can have. -/
theorem selectorPath_calls {start selector path : String} {from_ : List Step → Expr}
    {group : SelectorGroup} (starts : Selector.Starts start from_)
    (parsed : Selector.parse? selector = some group) (accepted : selectorPath start selector = .ok path) :
    (group.all Selector.isPlain = true → ∃ expr, Expr.parse? path = some expr ∧
      ∀ call ∈ group.flatMap Selector.customCalls, call ∈ expr.calls) ∧
    ∀ expr, Expr.parse? path = some expr → ∀ call ∈ expr.calls, Expr.IsCallable call.1 := by
  constructor
  · intro plain
    rcases selectorPath_reads starts parsed plain accepted with ⟨expr, structured, reads⟩
    exact ⟨expr, reads, fun call member => Selector.calls_of_groupExpr starts structured member⟩
  · intro expr read
    exact Expr.isCallable_of_parse read

/-- A selector with calls in a link, inside a negation and in another alternative. -/
def callingSelector : String := "ul > li:hit('x'):not(:far(-2)), :near"

def callingGroup : SelectorGroup :=
  [⟨⟨some (.named "ul"), []⟩, [(.child, ⟨some (.named "li"),
      [.pseudoClass "hit" (some [.string '\'' "x"]),
        .negation (.pseudoClass "far" (some [.number "-2"]))]⟩)]⟩,
    ⟨⟨none, [.pseudoClass "near" none]⟩, []⟩]

def callingPath : String := "//ul/li[hit(., 'x')][not(far(., -2))] | //*[near(.)]"

theorem selectorPath_calls_nested :
    Selector.parse? callingSelector = some callingGroup ∧
    selectorPath "//" callingSelector = .ok callingPath ∧
    callingGroup.all Selector.isPlain = true ∧
    callingGroup.flatMap Selector.customCalls =
      [("hit", [.focus, Selector.argumentExpr (.string '\'' "x")]),
        ("far", [.focus, Selector.argumentExpr (.number "-2")]), ("near", [.focus])] ∧
    ∃ expr, Expr.parse? callingPath = some expr ∧
      ∀ call ∈ callingGroup.flatMap Selector.customCalls, call ∈ expr.calls := by
  have parsed : Selector.parse? callingSelector = some callingGroup := rfl
  have accepted : selectorPath "//" callingSelector = .ok callingPath := rfl
  have plain : callingGroup.all Selector.isPlain = true := rfl
  exact ⟨parsed, accepted, plain, rfl, (selectorPath_calls .root parsed accepted).1 plain⟩

set_option maxRecDepth 4096 in
/-- A pseudo-class that is named like a test and an element name that begins with a minus sign have
paths that are no expressions, so that the selection fails.  A pseudo-class that begins with a minus
sign has a path that calls another function. -/
theorem selectorPath_misses_calls :
    (pathOfSelector ":node" = .ok "//*[node(.)]" ∧ Expr.parse? "//*[node(.)]" = none) ∧
    (∀ forest node, (select forest ":node" node none : Evaluation Unit NodeSet) =
      throw (.malformedExpression ".//*[node(.)]")) ∧
    (pathOfSelector "-a" = .ok "//-a" ∧ Expr.parse? "//-a" = none) ∧
    pathOfSelector "a:-x" = .ok "//a[-x(.)]" ∧
    ∃ expr, Expr.parse? "//a[-x(.)]" = some expr ∧ expr.calls = [("x", [.focus])] :=
  ⟨⟨rfl, rfl⟩, fun _ _ => rfl, ⟨rfl, rfl⟩, rfl, _, rfl, rfl⟩

end Query

end NodeQuery

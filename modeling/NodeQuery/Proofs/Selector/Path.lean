import Mathlib.Data.List.Forall2
import NodeQuery.Proofs.Selector.Condition
import NodeQuery.Query

/-!
# Paths of selectors

The path written for a selector is read back as the expression that the selector stands for.  Steps
are put behind one another by what they read in front of any further step, alternatives by what they
read in front of a bar or the end of the text.
-/

namespace NodeQuery

open NodeQuery.Expr (Body Operand Items Takes Reads Behind Operations EndsName EndsPath dropBlanks
  exprUpTo)
open Text.Reader

namespace Selector

section
variable (read : Condition → Option Expr)

/-- The step along an axis for a compound whose conditions are read in some way. -/
def compoundStepBy? (axis : Axis) (compound : Compound) : Option Step :=
  (compound.conditions.mapM read).map fun predicates =>
    .mk axis (nodeTest (compound.element.getD .any)) predicates

/-- The steps from one compound to the next. -/
def linkStepsBy? : Combinator → Compound → Option (List Step)
  | .descendant, compound =>
    (compoundStepBy? read .child compound).map fun step => [.descendantOrSelf, step]
  | .child, compound => (compoundStepBy? read .child compound).map fun step => [step]
  | .nextSibling, compound => (compoundStepBy? read .self compound).map fun step =>
    [.mk .followingSibling .anyName [countExpr 1], step]
  | .laterSibling, compound =>
    (compoundStepBy? read .followingSibling compound).map fun step => [step]

def stepsBy? (selector : Selector) : Option (List Step) := do
  let first ← compoundStepBy? read .child selector.first
  let others ← selector.others.mapM fun link => linkStepsBy? read link.1 link.2
  pure (first :: others.flatten)

def groupExprBy? (start : List Step → Expr) (group : SelectorGroup) : Option Expr := do
  let paths ← group.mapM (stepsBy? read)
  match paths with
  | [] => none
  | first :: others => pure ((others.map start).foldl .union (start first))

end

/-- The expression of a selector is the one with the conditions read by their structure. -/
theorem groupExpr?_eq : groupExpr? = groupExprBy? conditionExpr? := by
  have links : linkSteps? = linkStepsBy? conditionExpr? := by
    funext combinator compound
    cases combinator <;> rfl
  funext start group
  delta groupExpr? groupExprBy? steps? stepsBy?
  rw [links]
  rfl

end Selector

/-- A compound whose element name a path can have, and each of whose conditions is read if it has a
path, as what the path reads as. -/
structure Compound.Legible (read : Condition → Option Expr) (compound : Compound) : Prop where
  wellFormed : (compound.element.getD .any).WellFormed
  plain : (compound.element.getD .any).isPlain = true
  conditions : ∀ condition ∈ compound.conditions,
    Option.Rel Selector.Writes (Selector.conditionPath? condition) (read condition)

/-- A chain of such compounds. -/
structure Selector.Legible (read : Condition → Option Expr) (selector : Selector) : Prop where
  first : selector.first.Legible read
  others : ∀ link ∈ selector.others, link.2.Legible read

theorem Compound.WellFormed.element_getD {compound : Compound} (wellFormed : compound.WellFormed) :
    (compound.element.getD .any).WellFormed := by
  rcases compound with ⟨_ | name, conditions⟩
  · trivial
  · exact wellFormed.element name rfl

/-- A plain compound is read by its structure. -/
theorem Compound.legible_of_plain {compound : Compound} (wellFormed : compound.WellFormed)
    (plain : compound.isPlain = true) : compound.Legible Selector.conditionExpr? := by
  rw [isPlain, Bool.and_eq_true, List.all_eq_true] at plain
  refine ⟨wellFormed.element_getD, ?_, fun condition member =>
    Selector.writes_condition condition (wellFormed.conditions condition member)
      (plain.2 condition member)⟩
  rcases compound with ⟨_ | name, conditions⟩
  · rfl
  · exact plain.1

theorem Selector.legible_of_plain {selector : Selector} (wellFormed : selector.WellFormed)
    (plain : selector.isPlain = true) : selector.Legible conditionExpr? := by
  rw [isPlain, Bool.and_eq_true, List.all_eq_true] at plain
  exact ⟨Compound.legible_of_plain wellFormed.first plain.1, fun link member =>
    Compound.legible_of_plain (wellFormed.others link member) (plain.2 link member)⟩

namespace Selector

variable {read : Condition → Option Expr}

/-- What can follow a step: nothing, another step, or the bar before another path. -/
inductive EndsStep : List Char → Prop
  | nil : EndsStep []
  | slash (rest : List Char) : EndsStep ('/' :: rest)
  | bar (rest : List Char) : EndsStep (' ' :: '|' :: rest)

/-- What can follow a path: nothing, or the bar before another path. -/
inductive EndsAlternative : List Char → Prop
  | nil : EndsAlternative []
  | bar (rest : List Char) : EndsAlternative (' ' :: '|' :: rest)

section
variable {rest : List Char}

theorem EndsStep.predicate (ends : EndsStep rest) (sub : Text.Reader Expr) :
    Expr.predicate sub (dropBlanks rest) = none := by
  cases ends <;> rfl

theorem EndsStep.endsName (ends : EndsStep rest) : EndsName rest := by
  cases ends with
  | nil => exact ⟨leaves_nil _, leaves_nil _, leaves_nil _⟩
  | slash rest => exact EndsName.of_head rfl rfl rfl
  | bar rest => exact ⟨leaves_cons rfl, leaves_cons rfl, leaves_cons rfl⟩

theorem EndsAlternative.endsStep (ends : EndsAlternative rest) : EndsStep rest := by
  cases ends with
  | nil => exact .nil
  | bar rest => exact .bar rest

theorem EndsAlternative.endsPath (ends : EndsAlternative rest) : EndsPath rest := by
  cases ends with
  | nil => exact leaves_nil _
  | bar rest => exact leaves_cons rfl

end

theorem rel_bind {α β γ δ : Type} {related : α → β → Prop} {mapped : γ → δ → Prop} {first : Option α}
    {second : Option β} (rel : Option.Rel related first second) {left : α → Option γ}
    {right : β → Option δ}
    (keeps : ∀ value other, related value other → Option.Rel mapped (left value) (right other)) :
    Option.Rel mapped (first >>= left) (second >>= right) := by
  cases rel with
  | none => exact .none
  | some given => exact keeps _ _ given

/-- The text of the predicates of a step. -/
structure WritesPredicates (path : String) (values : List Expr) : Prop where
  reads : ∀ limit, path.toList.length ≤ limit → ∀ rest, EndsStep rest →
    Items (Expr.predicate (exprUpTo limit)) (path.toList ++ rest) values rest
  endsName : ∀ rest, EndsStep rest → EndsName (path.toList ++ rest)

theorem writes_predicates {conditions : List Condition} (each : ∀ condition ∈ conditions,
      Option.Rel Writes (conditionPath? condition) (read condition)) :
    Option.Rel WritesPredicates (predicatesPath? conditions) (conditions.mapM read) := by
  induction conditions with
  | nil =>
      apply Option.Rel.some
      exact ⟨fun limit _ rest ends => .done (ends.predicate _), fun rest ends => ends.endsName⟩
  | cons condition conditions ih =>
      rcases List.forall_mem_cons.mp each with ⟨first, each⟩
      rw [predicatesPath?, List.mapM_cons]
      refine rel_bind first fun body value writes =>
        rel_bind (ih each) fun others values writesOthers => .some ?_
      have spelled (rest : List Char) : ("[" ++ body ++ "]" ++ others).toList ++ rest =
          '[' :: (body.toList ++ ']' :: (others.toList ++ rest)) := by simp
      have counted : ("[" ++ body ++ "]" ++ others).toList.length =
          body.toList.length + others.toList.length + 2 := by
        simp
        omega
      constructor
      · intro limit enough rest ends
        have reads := writes.reads limit (by omega) _ (.bracket (others.toList ++ rest))
        have predicate := Expr.predicate_of_body (writes.solid _) reads
        rw [spelled]
        refine .more (Reads.of_eq predicate) ?_ (writesOthers.reads limit (by omega) rest ends)
        change _ < ('[' :: (body.toList ++ ']' :: (others.toList ++ rest))).length
        simp only [List.length_cons, List.length_append]
        omega
      · intro rest ends
        rw [spelled]
        exact EndsName.of_head rfl rfl rfl

/-- The text that begins a step along an axis: nothing along the child axis, the name of the axis and
two colons along any. -/
inductive Leads : List Char → Axis → Prop
  | child : Leads [] .child
  | named (axis : Axis) : Leads (axis.name.toList ++ [':', ':']) axis

/-- A text that begins as steps on their axes do. -/
structure BeginsStep (text : List Char) : Prop where
  solid : Leaves Expr.isBlank text
  undotted : Leaves (· == '.') text
  unslashed : Leaves (· == '/') text

section
variable {lead : List Char} {axis : Axis} {element : ElementName}

theorem beginsStep (leads : Leads lead axis) (wellFormed : element.WellFormed)
    (plain : element.isPlain = true) (rest : List Char) :
    BeginsStep (lead ++ ((elementTest element).toList ++ rest)) := by
  cases leads with
  | child =>
      cases element with
      | any => exact ⟨leaves_cons rfl, leaves_cons rfl, leaves_cons rfl⟩
      | named name =>
          have isName : Expr.IsName name.toList := IsName.chars wellFormed plain
          exact ⟨isName.solid, isName.leaves rfl, isName.leaves rfl⟩
  | named axis =>
      have begins : Expr.BeginsAxis
          ((axis.name.toList ++ [':', ':']) ++ ((elementTest element).toList ++ rest)) :=
        ⟨axis, _, List.append_assoc _ _ _⟩
      exact ⟨begins.solid, begins.leaves rfl, begins.leaves rfl⟩

theorem axisAndTest_lead (leads : Leads lead axis) (wellFormed : element.WellFormed)
    (plain : element.isPlain = true) {rest : List Char} (ends : EndsName rest) :
    Expr.axisAndTest (lead ++ ((elementTest element).toList ++ rest)) =
      some ((axis, nodeTest element), rest) := by
  cases leads with
  | child =>
      cases element with
      | any => rfl
      | named name =>
          have given := Expr.axisAndTest_name (.simple (IsName.chars wellFormed plain)) ends
          rwa [String.ofList_toList] at given
  | named axis =>
      rcases test_element wellFormed plain with ⟨solid, reads⟩
      have given := Expr.axisAndTest_axis axis (solid rest) (reads rest ends)
      rwa [List.append_assoc]

end

/-- The text of a step. -/
structure WritesStep (text : List Char) (step : Step) : Prop where
  begins : ∀ rest, BeginsStep (text ++ rest)
  reads : ∀ limit, text.length ≤ limit → ∀ rest, EndsStep rest →
    Reads (Expr.step (exprUpTo limit)) (text ++ rest) step rest

theorem writes_compound {compound : Compound} (legible : compound.Legible read) {lead : List Char}
    {axis : Axis} (leads : Leads lead axis) :
    Option.Rel (fun path step => WritesStep (lead ++ path.toList) step) (compoundPath? compound)
      (compoundStepBy? read axis compound) := by
  rw [compoundPath?, compoundStepBy?, Option.map_eq_bind]
  refine rel_bind (writes_predicates legible.conditions) fun path values writes => .some ?_
  have spelled (rest : List Char) :
      lead ++ (elementTest (compound.element.getD .any) ++ path).toList ++ rest =
        lead ++ ((elementTest (compound.element.getD .any)).toList ++ (path.toList ++ rest)) := by
    simp
  constructor
  · intro rest
    rw [spelled]
    exact beginsStep leads legible.wellFormed legible.plain _
  · intro limit enough rest ends
    have fits : path.toList.length ≤ limit := by
      simp only [String.toList_append, List.length_append] at enough
      omega
    rw [spelled]
    exact Expr.step_of_predicates (beginsStep leads legible.wellFormed legible.plain _).undotted
      (axisAndTest_lead leads legible.wellFormed legible.plain (writes.endsName rest ends))
      (writes.reads limit fits rest ends)

/-!
## Links

A step is told with the slashes in front of it and in front of any further steps, so that steps can be put
behind one another.
-/

/-- The text of steps and of the slashes before them, in front of any further steps. -/
def WritesLinks (text : List Char) (taken : List Step) : Prop :=
  ∀ limit, text.length ≤ limit → ∀ behind, EndsStep behind →
    EndsStep (text ++ behind) ∧ ∃ all, all.flatten = taken ∧
      Takes (Expr.nextStep (exprUpTo limit)) (text ++ behind) all behind

theorem writesLinks_nil : WritesLinks [] [] :=
  fun _ _ behind ends => ⟨ends, [], rfl, .done behind⟩

theorem WritesLinks.append {first second : List Char} {taken next : List Step}
    (firstWrites : WritesLinks first taken) (secondWrites : WritesLinks second next) :
    WritesLinks (first ++ second) (taken ++ next) := by
  intro limit enough behind ends
  rw [List.length_append] at enough
  rcases secondWrites limit (by omega) behind ends with ⟨secondEnds, later, laterSame, laterTakes⟩
  rcases firstWrites limit (by omega) _ secondEnds with ⟨firstEnds, all, same, allTakes⟩
  rw [List.append_assoc]
  refine ⟨firstEnds, all ++ later, ?_, allTakes.append laterTakes⟩
  rw [List.flatten_append, same, laterSame]

/-- What stands between two steps, and the steps it stands for. -/
inductive Separates : List Char → List Step → Prop
  | slash : Separates ['/'] []
  | slashes : Separates ['/', '/'] [Step.descendantOrSelf]

theorem Separates.endsStep {slashes : List Char} {between : List Step}
    (separates : Separates slashes between) (text : List Char) : EndsStep (slashes ++ text) := by
  cases separates <;> exact .slash _

theorem Separates.separator {slashes text : List Char} {between : List Step}
    (separates : Separates slashes between) (unslashed : Leaves (· == '/') text) :
    Expr.separator (slashes ++ text) = some (between, text) := by
  cases separates with
  | slash =>
      have double : token "//" ('/' :: text) = none := by
        cases text with
        | nil => rfl
        | cons c text =>
            have apart : ('/' == c) = false := by
              have different := unslashed c rfl
              rw [beq_eq_false_iff_ne] at different ⊢
              exact different.symm
            have spelled : "//".toList = ['/', '/'] := rfl
            rw [token, spelled, List.isPrefixOf_cons_cons, List.isPrefixOf_cons_cons, apart]
            rfl
      rw [Expr.separator]
      exact (orElse_of_none (bind_of_none double)).trans rfl
  | slashes => rfl

/-- A step behind slashes. -/
theorem WritesStep.link {slashes text : List Char} {between : List Step} {step : Step}
    (writes : WritesStep text step) (separates : Separates slashes between) :
    WritesLinks (slashes ++ text) (between ++ [step]) := by
  intro limit enough behind ends
  rw [List.length_append] at enough
  have begins := writes.begins behind
  have reads := writes.reads limit (by omega) behind ends
  have solid : dropBlanks (slashes ++ (text ++ behind)) = slashes ++ (text ++ behind) := by
    cases separates <;> rfl
  have separated := separates.separator begins.unslashed
  rw [← Expr.dropBlanks_of_leaves begins.solid] at reads
  rw [List.append_assoc]
  refine ⟨separates.endsStep _, [between ++ [step]], List.flatten_singleton, .more ?_ ?_ (.done _)⟩
  · rw [solid]
    exact Expr.nextStep_of_step separated reads
  · rw [solid]
    cases separates <;> simp only [List.length_cons, List.length_append, List.length_nil] <;> omega

theorem rel_map_right {α β γ : Type} {related : α → β → Prop} {mapped : α → γ → Prop}
    {first : Option α} {second : Option β} (rel : Option.Rel related first second) {right : β → γ}
    (keeps : ∀ value other, related value other → mapped value (right other)) :
    Option.Rel mapped first (second.map right) := by
  cases rel with
  | none => exact .none
  | some given => exact .some (keeps _ _ given)

/-- The first of the siblings behind a node. -/
theorem writesStep_nextSibling :
    WritesStep "following-sibling::*[1]".toList
      (.mk .followingSibling .anyName [countExpr 1]) where
  begins rest := ⟨leaves_cons rfl, leaves_cons rfl, leaves_cons rfl⟩
  reads limit enough rest ends := by
    have one : Body 1 ['1'] (countExpr 1) :=
      (Operand.numeral (.whole (List.cons_ne_nil _ _) (List.forall_mem_singleton.mpr rfl))).body
    have fits : 1 ≤ limit := Nat.le_trans (by decide) enough
    have predicate := Expr.predicate_of_body (one.solid _) (one.reads limit fits _ (.bracket rest))
    have star : Expr.nodeTest ('*' :: '[' :: '1' :: ']' :: rest) =
        some (.anyName, '[' :: '1' :: ']' :: rest) := rfl
    have along := Expr.axisAndTest_axis .followingSibling (leaves_cons rfl) star
    have items : Items (Expr.predicate (exprUpTo limit)) ('[' :: '1' :: ']' :: rest) [countExpr 1] rest :=
      .more (Reads.of_eq predicate) (by
        change _ < ('[' :: '1' :: ']' :: rest).length
        simp only [List.length_cons]
        omega) (.done (ends.predicate _))
    have spelled : "following-sibling::*[1]".toList ++ rest =
        Axis.followingSibling.name.toList ++ ':' :: ':' :: '*' :: '[' :: '1' :: ']' :: rest := by
      simp [Axis.name]
    rw [spelled]
    exact Expr.step_of_predicates (leaves_cons rfl) along items

/-- The compound behind a combinator. -/
theorem writes_link (combinator : Combinator) {compound : Compound} (legible : compound.Legible read) :
    Option.Rel (fun path taken => WritesLinks ((combinatorPath combinator).toList ++ path.toList) taken)
      (compoundPath? compound) (linkStepsBy? read combinator compound) := by
  cases combinator with
  | descendant =>
      refine rel_map_right (writes_compound legible .child) fun path step writes => ?_
      exact writes.link .slashes
  | child =>
      refine rel_map_right (writes_compound legible .child) fun path step writes => ?_
      exact writes.link .slash
  | nextSibling =>
      refine rel_map_right (writes_compound legible (.named .self)) fun path step writes => ?_
      have linked := (writesStep_nextSibling.link .slash).append (writes.link .slash)
      have spelled : (combinatorPath .nextSibling).toList ++ path.toList =
          ['/'] ++ "following-sibling::*[1]".toList ++
            (['/'] ++ (Axis.self.name.toList ++ [':', ':'] ++ path.toList)) := by
        simp [combinatorPath, Axis.name]
      rw [spelled]
      exact linked
  | laterSibling =>
      refine rel_map_right (writes_compound legible (.named .followingSibling)) fun path step writes => ?_
      have linked := writes.link .slash
      have spelled : (combinatorPath .laterSibling).toList ++ path.toList =
          ['/'] ++ (Axis.followingSibling.name.toList ++ [':', ':'] ++ path.toList) := by
        simp [combinatorPath, Axis.name]
      rw [spelled]
      exact linked

theorem writes_others {others : List (Combinator × Compound)}
    (legible : ∀ link ∈ others, link.2.Legible read) :
    Option.Rel (fun path links => WritesLinks path.toList links.flatten) (othersPath? others)
      (others.mapM fun link => linkStepsBy? read link.1 link.2) := by
  induction others with
  | nil => exact .some writesLinks_nil
  | cons link others ih =>
      rcases List.forall_mem_cons.mp legible with ⟨first, legible⟩
      rw [othersPath?, List.mapM_cons]
      refine rel_bind (writes_link link.1 first) fun path taken writes =>
        rel_bind (ih legible) fun rest links writesLater => .some ?_
      rw [String.toList_append, String.toList_append, List.flatten_cons]
      exact writes.append writesLater

/-- The text of a path in front of another alternative or the end of the text. -/
structure WritesPath (text : List Char) (value : Expr) : Prop where
  begins : ∃ c others, text = c :: others ∧ Expr.isBlank c = false ∧ c ≠ '-'
  reads : ∀ limit, text.length ≤ limit → ∀ rest, EndsAlternative rest →
    Reads (Expr.path (exprUpTo limit)) (text ++ rest) value rest

/-- How a path starts, before the steps of a selector. -/
inductive Starts : String → (List Step → Expr) → Prop
  | root : Starts "//" fromRoot
  | focus : Starts ".//" fromFocus

/-- Steps behind a start are a path. -/
theorem WritesStep.path {start : String} {from_ : List Step → Expr} (starts : Starts start from_)
    {text behind : List Char} {step : Step} {links : List Step} (writes : WritesStep text step)
    (writesBehind : WritesLinks behind links) :
    WritesPath (start.toList ++ text ++ behind) (from_ (step :: links)) where
  begins := by cases starts <;> exact ⟨_, _, rfl, rfl, by decide⟩
  reads limit enough rest ends := by
    rw [List.length_append, List.length_append] at enough
    have stops : Expr.nextStep (exprUpTo limit) (dropBlanks rest) = none :=
      Expr.nextStep_stops ends.endsPath
    cases starts with
    | root =>
        rcases writesBehind limit (by omega) rest ends.endsStep with ⟨endsText, all, same, takes⟩
        have steps := Expr.steps_of_items (writes.reads limit (by omega) _ endsText) (takes.items stops)
        have given := Expr.path_of_slashes (writes.begins _).solid steps
        rw [same] at given
        rw [List.append_assoc, List.append_assoc]
        exact given
    | focus =>
        have long : (['/', '/'] ++ text ++ behind).length ≤ limit := by
          simp at enough ⊢
          omega
        have along := (writes.link .slashes).append writesBehind
        rcases along limit long rest ends.endsStep with ⟨_, all, same, takes⟩
        have dot (text : List Char) : Expr.step (exprUpTo limit) ('.' :: '/' :: text) =
            some (.mk .self .node [], '/' :: text) := rfl
        have spelled : ".//".toList ++ text ++ behind ++ rest =
            '.' :: (['/', '/'] ++ text ++ behind ++ rest) := by simp
        have steps := Expr.steps_of_items (Reads.of_eq (dot _)) (takes.items stops)
        rw [same] at steps
        rw [spelled]
        refine Expr.path_of_steps (leaves_cons rfl) rfl steps ?_
        intro only impossible
        cases impossible

/-- One selector behind a start. -/
theorem writes_path {start : String} {from_ : List Step → Expr} (starts : Starts start from_)
    {selector : Selector} (legible : selector.Legible read) :
    Option.Rel (fun path taken => WritesPath path.toList (from_ taken)) (path? start selector)
      (stepsBy? read selector) := by
  delta path? stepsBy?
  refine rel_bind (writes_compound legible.first .child) fun first step writes => ?_
  refine rel_bind (writes_others legible.others) fun others links writesOthers => .some ?_
  rw [String.toList_append, String.toList_append]
  exact writes.path starts writesOthers

/-- The text of alternatives behind the first, each with the bar before it. -/
def alternativeChars (paths : List String) : List Char :=
  paths.flatMap fun path => ' ' :: '|' :: ' ' :: path.toList

theorem endsAlternative_alternativeChars (paths : List String) :
    EndsAlternative (alternativeChars paths) := by
  cases paths with
  | nil => exact .nil
  | cons path paths => exact .bar _

theorem operations_of_paths {paths : List String} {values : List Expr} {limit : Nat}
    (writes : List.Forall₂ (fun path value => WritesPath path.toList value) paths values)
    (enough : (alternativeChars paths).length ≤ limit) :
    Operations (Expr.path (exprUpTo limit)) Expr.unionOperator (alternativeChars paths)
      (values.map (Expr.union, ·)) [] := by
  induction writes with
  | nil => exact .done rfl
  | @cons path value paths values first others ih =>
      have spelled : alternativeChars (path :: paths) =
          ' ' :: '|' :: ' ' :: (path.toList ++ alternativeChars paths) := rfl
      rw [spelled] at enough ⊢
      simp only [List.length_cons, List.length_append] at enough
      have bar : Expr.unionOperator ('|' :: ' ' :: (path.toList ++ alternativeChars paths)) =
          some (.union, ' ' :: (path.toList ++ alternativeChars paths)) := rfl
      have solid : dropBlanks (' ' :: (path.toList ++ alternativeChars paths)) =
          path.toList ++ alternativeChars paths := by
        rcases first.begins with ⟨c, letters, same, solid, _⟩
        rw [same]
        exact Expr.dropBlanks_of_leaves (leaves_cons solid)
      refine .more (Expr.operation_reads bar ?_) ?_ (ih (by omega))
      · rw [solid]
        exact first.reads limit (by omega) _ (endsAlternative_alternativeChars paths)
      · change _ < ('|' :: ' ' :: (path.toList ++ alternativeChars paths)).length
        simp only [List.length_cons, List.length_append]
        omega

theorem toList_intercalate_bar (path : String) (paths : List String) :
    (" | ".intercalate (path :: paths)).toList = path.toList ++ alternativeChars paths := by
  rw [String.toList_intercalate]
  induction paths generalizing path with
  | nil => simp [alternativeChars]
  | cons next paths ih =>
      have later := ih next
      rw [List.map_cons] at later
      rw [List.map_cons, List.map_cons, List.intercalate_cons_cons, later]
      simp [alternativeChars]

/-- Alternatives with bars between them are a union, grouped from the left. -/
theorem parse?_of_paths {path : String} {paths : List String} {value : Expr} {values : List Expr}
    (first : WritesPath path.toList value)
    (others : List.Forall₂ (fun path value => WritesPath path.toList value) paths values) :
    Expr.parse? (" | ".intercalate (path :: paths)) = some (values.foldl .union value) := by
  have spelled := toList_intercalate_bar path paths
  rcases first.begins with ⟨c, letters, same, solid, unsigned⟩
  have begins {class_ : Char → Bool} (outside : class_ c = false) :
      Leaves class_ (path.toList ++ alternativeChars paths) := by
    rw [same]
    exact leaves_cons outside
  apply Expr.parse?_of_orLevel
  · rw [spelled]
    exact begins solid
  · rw [spelled, List.length_append]
    have reads := first.reads (path.toList.length + (alternativeChars paths).length)
      (Nat.le_add_right _ _) _ (endsAlternative_alternativeChars paths)
    have operations := operations_of_paths others (Nat.le_add_left _ path.toList.length)
    have union := Expr.leftGrouped_of_operations reads operations
    rw [List.foldl_map] at union
    have operand := Expr.unaryLevel_of_union
      ⟨begins solid, begins (beq_eq_false_iff_ne.mpr unsigned)⟩ union
    have known : 1 ≤ 7 := by decide
    exact Expr.levelOperand_climb known (Nat.le_refl 7)
      (fun impossible => absurd impossible Nat.one_ne_zero) operand
      fun between _ _ => Expr.Closes.nil.levelOperator between

theorem forall₂_of_mapM {α β : Type} {translate : α → Option β} {items : List α} {all : List β}
    (translated : items.mapM translate = some all) :
    List.Forall₂ (fun given item => translate item = some given) all items := by
  induction items generalizing all with
  | nil =>
      cases translated
      exact .nil
  | cons item items ih =>
      simp only [List.mapM_cons, Option.bind_eq_bind, Option.bind_eq_some_iff] at translated
      rcases translated with ⟨first, given, others, rest, same⟩
      cases same
      exact .cons given (ih rest)

theorem rel_mapM {α β γ : Type} {related : β → γ → Prop} {left : α → Option β} {right : α → Option γ}
    {items : List α} (each : ∀ item ∈ items, Option.Rel related (left item) (right item)) :
    Option.Rel (List.Forall₂ related) (items.mapM left) (items.mapM right) := by
  induction items with
  | nil => exact .some .nil
  | cons item items ih =>
      rw [List.mapM_cons, List.mapM_cons]
      refine rel_bind (each item List.mem_cons_self) fun first firstOther firstRelated => ?_
      refine rel_bind (ih fun other member => each other (List.mem_cons_of_mem _ member))
        fun others othersOther othersRelated => .some ?_
      exact .cons firstRelated othersRelated

/-- The path of alternatives is read back as the expression they stand for. -/
theorem parse?_of_legible {start : String} {from_ : List Step → Expr} (starts : Starts start from_)
    {group : SelectorGroup} (filled : group ≠ []) (legible : ∀ selector ∈ group, selector.Legible read) :
    Option.Rel (fun path value => Expr.parse? path = some value) (groupPath? start group)
      (groupExprBy? read from_ group) := by
  cases group with
  | nil => exact absurd rfl filled
  | cons selector others =>
      rcases List.forall_mem_cons.mp legible with ⟨firstLegible, legible⟩
      have otherPaths := rel_mapM fun other member => writes_path starts (legible other member)
      delta groupPath? groupExprBy?
      simp only [List.mapM_cons, Option.map_eq_bind, ← Option.bind_eq_bind, bind_assoc, pure_bind]
      refine rel_bind (writes_path starts firstLegible) fun path taken first =>
        rel_bind otherPaths fun paths lists later => ?_
      apply Option.Rel.some
      exact parse?_of_paths first (List.forall₂_map_right_iff.mpr later)

/-- That of plain alternatives, as the expression with their structure. -/
theorem parse?_groupPath {start : String} {from_ : List Step → Expr} (starts : Starts start from_)
    {group : SelectorGroup} (filled : group ≠ [])
    (wellFormed : ∀ selector ∈ group, selector.WellFormed)
    (plain : group.all Selector.isPlain = true) :
    Option.Rel (fun path value => Expr.parse? path = some value) (groupPath? start group)
      (groupExpr? from_ group) := by
  rw [groupExpr?_eq]
  exact parse?_of_legible starts filled fun selector member =>
    legible_of_plain (wellFormed selector member) (List.all_eq_true.mp plain selector member)

end Selector

namespace Query

/-- What a selector is read as, where it has a path. -/
theorem selectorPath_eq_ok {start selector path : String}
    (accepted : selectorPath start selector = .ok path) :
    ∃ group, Selector.parse? selector = some group ∧ Selector.groupPath? start group = some path := by
  delta selectorPath at accepted
  cases parsed : Selector.parse? selector with
  | none =>
      rw [parsed] at accepted
      cases accepted
  | some group =>
      rw [parsed] at accepted
      dsimp only at accepted
      cases written : Selector.groupPath? start group with
      | none =>
          rw [written] at accepted
          cases accepted
      | some other =>
          rw [written] at accepted
          cases accepted
          exact ⟨group, rfl, written⟩

/-- A selector that has an expression has a path, which is read back as the expression. -/
theorem selectorPath_of_groupExpr {start selector : String} {from_ : List Step → Expr} {expr : Expr}
    {group : SelectorGroup} (starts : Selector.Starts start from_)
    (parsed : Selector.parse? selector = some group) (plain : group.all Selector.isPlain = true)
    (structured : Selector.groupExpr? from_ group = some expr) :
    ∃ path, selectorPath start selector = .ok path ∧ Expr.parse? path = some expr := by
  rcases Selector.wellFormed_of_parse parsed with ⟨filled, wellFormed⟩
  have related := Selector.parse?_groupPath starts filled wellFormed plain
  delta selectorPath
  rw [parsed]
  dsimp only
  rcases written : Selector.groupPath? start group with _ | path
  · rw [written, structured] at related
    cases related
  · rw [written, structured] at related
    cases related with
    | some reads => exact ⟨path, rfl, reads⟩

/-- The path expression for a selector is read back as the expression built from the selector: one
path for each alternative, one step for each combinator and one predicate for each condition, with
every name and every literal in a leaf of its own, whatever characters it consists of. -/
theorem pathOfSelector_reads {selector path : String} {group : SelectorGroup}
    (parsed : Selector.parse? selector = some group) (plain : group.all Selector.isPlain = true)
    (accepted : pathOfSelector selector = .ok path) :
    ∃ expr, Selector.groupExpr? Selector.fromRoot group = some expr ∧
      Expr.parse? path = some expr := by
  rcases selectorPath_eq_ok accepted with ⟨other, otherParsed, written⟩
  rw [parsed] at otherParsed
  cases otherParsed
  rcases Selector.wellFormed_of_parse parsed with ⟨filled, wellFormed⟩
  have related := Selector.parse?_groupPath .root filled wellFormed plain
  rw [written] at related
  rcases structured : Selector.groupExpr? Selector.fromRoot group with _ | expr
  · rw [structured] at related
    cases related
  · rw [structured] at related
    cases related with
    | some reads => exact ⟨expr, rfl, reads⟩

/-- A selector with quotes, brackets, bars and slashes in a value, an element named like an operator,
a negation and a call. -/
def hostileSelector : String := "or[id^=\"'] | //b[\"] + :not(.div), *:hit(-1.5, \")\")"

def hostileGroup : SelectorGroup :=
  [⟨⟨some (.named "or"), [.attribute "id" (some (.start, "'] | //b["))]⟩,
      [(.nextSibling, ⟨none, [.negation (.class_ "div")]⟩)]⟩,
    ⟨⟨some .any, [.pseudoClass "hit" (some [.number "-1.5", .string '"' ")"])]⟩, []⟩]

def hostilePath : String :=
  "//or[starts-with(@id, \"'] | //b[\")]/following-sibling::*[1]/self::*" ++
    "[not(contains(concat(' ', normalize-space(@class), ' '), ' div '))]" ++
    " | //*[hit(., -1.5, \")\")]"

theorem pathOfSelector_reads_hostile :
    Selector.parse? hostileSelector = some hostileGroup ∧
    hostileGroup.all Selector.isPlain = true ∧
    pathOfSelector hostileSelector = .ok hostilePath ∧
    ∃ expr, Selector.groupExpr? Selector.fromRoot hostileGroup = some expr ∧
      Expr.parse? hostilePath = some expr := by
  have parsed : Selector.parse? hostileSelector = some hostileGroup := rfl
  have plain : hostileGroup.all Selector.isPlain = true := rfl
  have accepted : pathOfSelector hostileSelector = .ok hostilePath := rfl
  exact ⟨parsed, plain, accepted, pathOfSelector_reads parsed plain accepted⟩

end Query

end NodeQuery

import NodeQuery.Proofs.Expr.Calls
import NodeQuery.Proofs.Expr.Rules

/-!
# What the grammar gives

A property of expressions that every rule of the grammar keeps holds of every expression that is read
from a text.  A rule for a call looks at the text before it skips blanks, so what it gives depends on
blanks having been skipped already; they always have been, since every rule skips those in front of
its next part.
-/

namespace NodeQuery.Expr

open Text (Reader)
open Text.Reader

variable {α β : Type} {post : α → Prop} {last : β → Prop}

/-- Whatever a reader takes off a text that does not begin with a blank satisfies `post`. -/
def GivesSolid (post : α → Prop) (reader : Reader α) : Prop :=
  ∀ text, Leaves isBlank text → ∀ value rest, reader text = some (value, rest) → post value

theorem GivesSolid.of_gives {reader : Reader α} (gives : Gives post reader) : GivesSolid post reader :=
  fun text _ => gives text

/-- Behind blanks a text does not begin with one. -/
theorem GivesSolid.behind {reader : Reader α} (solid : GivesSolid post reader) :
    Gives post (do blanks; reader) := by
  intro text value rest given
  rw [bind_of_some (blanks_apply text)] at given
  exact solid _ (leaves_dropBlanks text) value rest given

theorem GivesSolid.bind {reader : Reader α} {next : α → Reader β} (first : GivesSolid post reader)
    (rest : ∀ value, post value → Gives last (next value)) : GivesSolid last (reader >>= next) := by
  intro text solid value left given
  rcases exists_of_bind given with ⟨middle, between, taken, behind⟩
  exact rest middle (first text solid middle between taken) between value left behind

theorem GivesSolid.orElse {first second : Reader α} (left : GivesSolid post first)
    (right : GivesSolid post second) : GivesSolid post (first <|> second) := by
  intro text solid value rest given
  rw [orElse_apply] at given
  rcases taken : first text with _ | ⟨middle, between⟩
  · rw [taken, Option.none_or] at given
    exact right text solid value rest given
  · rw [taken, Option.some_or] at given
    cases given
    exact left text solid value rest taken

theorem givesSolid_maybe {item : Reader α} (each : GivesSolid post item) :
    GivesSolid (fun value => ∀ given, value = some given → post given) (maybe item) := by
  apply GivesSolid.orElse
  · intro text solid value rest given held same
    change (item text).bind _ = _ at given
    rcases taken : item text with _ | ⟨first, between⟩
    · rw [taken] at given
      cases given
    · rw [taken] at given
      cases given
      cases same
      exact each text solid held rest taken
  · apply GivesSolid.of_gives
    apply Gives.pure
    intro given impossible
    cases impossible

/-- What holds of every item holds of all items with blanks between them. -/
theorem givesSolid_spaced {item : Reader α} (each : GivesSolid post item) :
    GivesSolid (fun values => ∀ value ∈ values, post value) (spaced item) := by
  rw [spaced]
  apply GivesSolid.orElse
  · refine GivesSolid.bind each fun first firstHolds => ?_
    refine Gives.bind (gives_many each.behind) fun others othersHold => ?_
    exact Gives.pure (List.forall_mem_cons.mpr ⟨firstHolds, othersHold⟩)
  · exact GivesSolid.of_gives (Gives.pure fun _ member => absurd member List.not_mem_nil)

theorem givesSolid_commaSeparated {item : Reader α} (each : GivesSolid post item) :
    GivesSolid (fun values => ∀ value ∈ values, post value) (commaSeparated item) := by
  have behindComma : Gives post (afterComma item) := Gives.after fun _ => each.behind
  rw [commaSeparated]
  refine GivesSolid.bind each fun first firstHolds => GivesSolid.behind ?_
  refine GivesSolid.bind (givesSolid_spaced (GivesSolid.of_gives behindComma)) ?_
  intro others othersHold
  exact Gives.pure (List.forall_mem_cons.mpr ⟨firstHolds, othersHold⟩)

theorem gives_simpleName : Gives IsName simpleName := by
  rw [simpleName]
  refine Gives.bind (gives_run isNameChar) fun taken all => ?_
  refine Gives.bind (gives_guard _) fun _ starts => ?_
  cases taken with
  | nil => cases starts
  | cons first others => exact Gives.pure ⟨⟨first, others, rfl, starts⟩, all⟩

theorem gives_name : Gives (fun given => IsQualifiedName given.toList) name := by
  rw [name]
  refine Gives.bind gives_simpleName fun first firstIsName => ?_
  refine Gives.bind (gives_maybe (Gives.after fun _ => gives_simpleName)) fun second isName => ?_
  cases second with
  | none =>
      apply Gives.pure
      rw [String.toList_ofList]
      exact .simple firstIsName
  | some rest =>
      apply Gives.pure
      rw [String.toList_ofList]
      exact .prefixed firstIsName (isName rest rfl)

/-- A text that can be written between quotes of one kind. -/
def IsQuotable (text : String) : Prop := '"' ∉ text.toList ∨ '\'' ∉ text.toList

theorem gives_quotedBy (quote : Char) :
    Gives (fun content => quote ∉ content.toList) (quotedBy quote) := by
  rw [quotedBy]
  refine Gives.after fun _ => ?_
  refine Gives.bind (gives_run _) fun content all => ?_
  refine Gives.after fun _ => Gives.pure fun member => ?_
  rw [String.toList_ofList] at member
  exact bne_iff_ne.mp (all quote member) rfl

theorem gives_quoted : Gives IsQuotable quoted :=
  Gives.orElse ((gives_quotedBy '"').mono fun _ => .inl) ((gives_quotedBy '\'').mono fun _ => .inr)

theorem gives_numeral :
    Gives (fun amount => ∃ decimal : Numeral.Decimal, amount = decimal.toFloat) numeral := by
  rw [numeral]
  refine Gives.after fun text => ?_
  cases Numeral.Decimal.ofChars? text with
  | none =>
      intro text value rest impossible
      cases impossible
  | some decimal => exact Gives.pure ⟨decimal, rfl⟩

/-- A test whose names are names. -/
def IsSpelled : NodeTest → Prop
  | .named name => IsQualifiedName name.toList
  | .anyNameWithPrefix first => IsName first.toList
  | _ => True

theorem gives_nodeTest : Gives IsSpelled nodeTest := by
  have word (word : String) {meaning : NodeTest} (spelled : IsSpelled meaning) :
      Gives IsSpelled (wordTest word meaning) :=
    Gives.after fun _ => Gives.after fun _ => Gives.after fun _ => Gives.after fun _ =>
      Gives.after fun _ => Gives.pure spelled
  have kinds : Gives IsSpelled kindTest :=
    Gives.orElse (word "node" trivial) (Gives.orElse (word "text" trivial) (word "comment" trivial))
  apply Gives.orElse kinds
  rw [nameTest]
  refine Gives.orElse (Gives.after fun _ => Gives.pure trivial) (Gives.orElse ?_ ?_)
  · refine Gives.bind gives_simpleName fun first isName => Gives.after fun _ => Gives.pure ?_
    change IsName (String.ofList first).toList
    rw [String.toList_ofList]
    exact isName
  · exact Gives.bind gives_name fun exact_ named => Gives.pure named

theorem gives_axisAndTest : Gives (fun lead => IsSpelled lead.2) axisAndTest := by
  rw [axisAndTest]
  refine Gives.orElse ?_ (Gives.orElse ?_ ?_)
  · refine Gives.after fun axis => Gives.after fun _ => Gives.after fun _ => Gives.after fun _ => ?_
    exact Gives.bind gives_nodeTest fun test spelled => Gives.pure spelled
  · refine Gives.after fun _ => Gives.after fun _ => ?_
    exact Gives.bind gives_nodeTest fun test spelled => Gives.pure spelled
  · exact Gives.bind gives_nodeTest fun test spelled => Gives.pure spelled

/-- A name that a call can have: it begins as names begin, and it is not one of the words that call
no function. -/
structure IsCallable (function : String) : Prop where
  head : ∃ first others, function.toList = first :: others ∧ isNameStart first = true
  notTest : function ∉ testWords

theorem keyword_apply (word : String) (text : List Char) :
    keyword word text = if text.takeWhile isNameChar = word.toList then
      some ((), text.dropWhile isNameChar) else none := by
  have taken : run isNameChar text =
      some (text.takeWhile isNameChar, text.dropWhile isNameChar) := rfl
  rw [keyword, bind_of_some taken, guard_apply]
  simp only [beq_iff_eq]

theorem simpleName_apply (text : List Char) :
    simpleName text = if (text.takeWhile isNameChar).head?.any isNameStart then
      some (text.takeWhile isNameChar, text.dropWhile isNameChar) else none := by
  have taken : run isNameChar text =
      some (text.takeWhile isNameChar, text.dropWhile isNameChar) := rfl
  rw [simpleName, bind_of_some taken, bind_apply, guard_apply]
  split <;> rfl

/-- A name off the front of a text: its first character starts a name, and if it has no colon it is
all of the characters of names there are. -/
theorem name_spelled {text rest : List Char} {function : String}
    (given : name text = some (function, rest)) :
    (∃ first others, function.toList = first :: others ∧ isNameStart first = true) ∧
      (':' ∉ function.toList →
        text.takeWhile isNameChar = function.toList ∧ text.dropWhile isNameChar = rest) := by
  rw [name, bind_apply, simpleName_apply] at given
  split at given
  · rename_i starts
    rcases spelled : text.takeWhile isNameChar with _ | ⟨first, others⟩
    · rw [spelled] at starts
      cases starts
    · rw [spelled] at starts given
      rw [Option.bind_some, bind_apply] at given
      rcases local_ : (do token ":"; simpleName : Reader _) (text.dropWhile isNameChar) with
        _ | ⟨second, left⟩
      · rw [maybe_of_none local_] at given
        cases given
        rw [String.toList_ofList]
        exact ⟨⟨first, others, rfl, starts⟩, fun _ => ⟨rfl, rfl⟩⟩
      · rw [maybe_of_some local_] at given
        cases given
        rw [String.toList_ofList]
        refine ⟨⟨first, _, rfl, starts⟩, fun colonless => ?_⟩
        exact absurd (List.mem_append_right _ List.mem_cons_self) colonless
  · cases given

/-- Where one of the words that call no function is read as a name, it is read as such a word. -/
theorem testWord_of_name {text rest : List Char} {function : String} (listed : function ∈ testWords)
    (given : name text = some (function, rest)) : testWord text = some ((), rest) := by
  have colonless : ∀ word ∈ testWords, ':' ∉ word.toList := by decide
  rcases (name_spelled given).2 (colonless function listed) with ⟨spelled, left⟩
  have matches_ (word : String) :
      keyword word text = if function = word then some ((), rest) else none := by
    rw [keyword_apply, spelled, left]
    simp only [String.toList_inj]
  simp only [testWords, List.mem_cons, List.not_mem_nil, or_false] at listed
  rcases listed with rfl | rfl | rfl | rfl <;>
    simp [testWord, orElse_apply, matches_]

/-- A call of a function reads the name of the function only where it is none of the words that call
no function. -/
theorem gives_functionName :
    GivesSolid (fun function => IsCallable function ∧ IsQualifiedName function.toList) (do
      absent (do testWord; blanks; token "(")
      blanks
      let function ← name
      blanks
      token "("
      pure function) := by
  intro text solid function rest given
  rcases exists_of_bind given with ⟨_, left, ahead, called⟩
  rcases none_of_absent ahead with ⟨refused, rfl⟩
  rw [bind_of_some (blanks_apply _), dropBlanks_of_leaves solid] at called
  rcases exists_of_bind called with ⟨other, between, named, open_⟩
  rw [bind_of_some (blanks_apply _)] at open_
  rcases exists_of_bind open_ with ⟨_, after, opened, same⟩
  cases same
  refine ⟨⟨(name_spelled named).1, fun listed => ?_⟩, gives_name left _ between named⟩
  rw [bind_of_some (testWord_of_name listed named), bind_of_some (blanks_apply _), opened] at refused
  cases refused

/-!
## Rules

A property is checked once for each thing that a rule puts together; the readers of the rules then give
it along with what they read.
-/

/-- The names in the test of a step are names, and a property holds of every predicate. -/
structure StepHolds (holds : Expr → Prop) (step : Step) : Prop where
  spelled : IsSpelled step.test
  predicates : ∀ predicate ∈ step.predicates, holds predicate

def StepsHold (holds : Expr → Prop) (steps : List Step) : Prop :=
  ∀ step ∈ steps, StepHolds holds step

/-- A property of expressions that holds of whatever the rules of the grammar put together from
expressions it holds of. -/
structure KeptByRules (holds : Expr → Prop) : Prop where
  number : ∀ decimal : Numeral.Decimal, holds (.number decimal.toFloat)
  string : ∀ text, IsQuotable text → holds (.string text)
  var : ∀ name : String, IsQualifiedName name.toList → holds (.var name)
  focus : holds .focus
  call : ∀ function arguments, IsCallable function → IsQualifiedName function.toList →
    (∀ argument ∈ arguments, holds argument) → holds (.call function arguments)
  arithmetic : ∀ operator left right, holds left → holds right →
    holds (.arithmetic operator left right)
  connective : ∀ operator left right, holds left → holds right →
    holds (.connective operator left right)
  comparison : ∀ operator left right, holds left → holds right →
    holds (.comparison operator left right)
  negate : ∀ operand, holds operand → holds (.negate operand)
  union : ∀ left right, holds left → holds right → holds (.union left right)
  rootPath : ∀ steps, StepsHold holds steps → holds (.rootPath steps)
  focusPath : ∀ steps, steps ≠ [] → (∀ only, steps = [only] → only.isSelf = false) →
    StepsHold holds steps → holds (.focusPath steps)
  exprPath : ∀ start steps, holds start → steps ≠ [] → StepsHold holds steps →
    holds (.exprPath start steps)
  filter : ∀ primary predicates, holds primary → predicates ≠ [] →
    (∀ predicate ∈ predicates, holds predicate) → holds (.filter primary predicates)

variable {holds : Expr → Prop} {sub : Reader Expr}

theorem stepsHold_nil : StepsHold holds [] := fun _ member => absurd member List.not_mem_nil

/-- A step without predicates to any node. -/
theorem stepHolds_node (axis : Axis) : StepHolds holds (.mk axis .node []) where
  spelled := trivial
  predicates _ member := absurd member List.not_mem_nil

theorem stepsHold_descendantOrSelf {steps : List Step} (hold : StepsHold holds steps) :
    StepsHold holds (.descendantOrSelf :: steps) :=
  List.forall_mem_cons.mpr ⟨stepHolds_node .descendantOrSelf, hold⟩

theorem gives_separator (holds : Expr → Prop) : Gives (StepsHold holds) separator :=
  Gives.orElse
    (Gives.after fun _ => Gives.pure (stepsHold_descendantOrSelf stepsHold_nil))
    (Gives.after fun _ => Gives.pure stepsHold_nil)

section
variable (solid : GivesSolid holds sub)
include solid

theorem gives_predicate : Gives holds (predicate sub) := by
  refine Gives.after fun _ => GivesSolid.behind ?_
  refine GivesSolid.bind solid fun inner innerHolds => ?_
  exact Gives.after fun _ => Gives.after fun _ => Gives.pure innerHolds

theorem gives_step : Gives (StepHolds holds) (step sub) := by
  apply Gives.orElse
  · exact Gives.orElse (Gives.after fun _ => Gives.pure (stepHolds_node .parent))
      (Gives.after fun _ => Gives.pure (stepHolds_node .self))
  · refine Gives.bind gives_axisAndTest fun lead spelled => GivesSolid.behind ?_
    refine GivesSolid.bind (givesSolid_spaced (GivesSolid.of_gives (gives_predicate solid))) ?_
    exact fun predicates hold => Gives.pure ⟨spelled, hold⟩

/-- There is a step at least. -/
theorem gives_steps : Gives (fun taken => taken ≠ [] ∧ StepsHold holds taken) (steps sub) := by
  have next : Gives (StepsHold holds) (nextStep sub) := by
    refine Gives.bind (gives_separator holds) fun between betweenHold => Gives.after fun _ => ?_
    refine Gives.bind (gives_step solid) fun taken hold => Gives.pure ?_
    exact List.forall_mem_append.mpr ⟨betweenHold, List.forall_mem_singleton.mpr hold⟩
  refine Gives.bind (gives_step solid) fun first firstHolds => GivesSolid.behind ?_
  refine GivesSolid.bind (givesSolid_spaced (GivesSolid.of_gives next)) fun others othersHold => ?_
  apply Gives.pure
  refine ⟨List.cons_ne_nil _ _, List.forall_mem_cons.mpr ⟨firstHolds, fun taken member => ?_⟩⟩
  rcases List.mem_flatten.mp member with ⟨part, listed, inside⟩
  exact othersHold part listed taken inside

theorem gives_nextSteps :
    Gives (fun taken => taken ≠ [] ∧ StepsHold holds taken) (nextSteps sub) := by
  refine Gives.bind (gives_separator holds) fun between betweenHold => Gives.after fun _ => ?_
  refine Gives.bind (gives_steps solid) fun taken hold => Gives.pure ?_
  exact ⟨List.append_ne_nil_of_right_ne_nil between hold.1,
    List.forall_mem_append.mpr ⟨betweenHold, hold.2⟩⟩

end

section
variable (rules : KeptByRules holds) (solid : GivesSolid holds sub)
include rules solid

theorem gives_rootedPath : Gives holds (rootedPath sub) := by
  apply Gives.orElse
  · refine Gives.after fun _ => Gives.after fun _ => ?_
    refine Gives.bind (gives_steps solid) fun taken hold => Gives.pure ?_
    exact rules.rootPath _ (stepsHold_descendantOrSelf hold.2)
  · refine Gives.after fun _ => Gives.after fun _ => ?_
    refine Gives.bind (gives_maybe (gives_steps solid)) fun taken hold => Gives.pure ?_
    apply rules.rootPath
    cases taken with
    | none => exact stepsHold_nil
    | some steps => exact (hold steps rfl).2

theorem gives_relativePath : Gives holds (relativePath sub) := by
  refine Gives.bind (gives_steps solid) fun taken hold => ?_
  rcases hold with ⟨filled, hold⟩
  split
  · rename_i only
    split
    · exact Gives.pure rules.focus
    · rename_i moves
      apply Gives.pure
      apply rules.focusPath _ filled _ hold
      intro other same
      cases same
      exact Bool.eq_false_iff.mpr moves
  · rename_i longer
    exact Gives.pure (rules.focusPath _ filled (fun only same => absurd same (longer only)) hold)

theorem gives_functionCall : GivesSolid holds (functionCall sub) := by
  have grouped : functionCall sub = (do
      let function ← (do
        absent (do testWord; blanks; token "(")
        blanks
        let function ← name
        blanks
        token "("
        pure function)
      blanks
      let arguments ← maybe (commaSeparated sub)
      blanks
      token ")"
      pure (.call function (arguments.getD []))) := by
    rw [functionCall]
    simp only [bind_assoc, pure_bind]
  rw [grouped]
  refine GivesSolid.bind gives_functionName fun function known => GivesSolid.behind ?_
  rcases known with ⟨callable, named⟩
  refine GivesSolid.bind (givesSolid_maybe (givesSolid_commaSeparated solid)) ?_
  refine fun arguments hold => Gives.after fun _ => Gives.after fun _ => Gives.pure ?_
  apply rules.call _ _ callable named
  cases arguments with
  | none => exact fun _ member => absurd member List.not_mem_nil
  | some arguments => exact hold arguments rfl

theorem gives_primary : GivesSolid holds (primary sub) := by
  refine GivesSolid.orElse (GivesSolid.of_gives ?_) ?_
  · exact Gives.after fun _ => Gives.bind gives_name fun bound named =>
      Gives.pure (rules.var bound named)
  refine GivesSolid.orElse (GivesSolid.of_gives ?_) ?_
  · refine Gives.after fun _ => GivesSolid.behind ?_
    refine GivesSolid.bind solid fun inner innerHolds => ?_
    exact Gives.after fun _ => Gives.after fun _ => Gives.pure innerHolds
  refine GivesSolid.orElse (GivesSolid.of_gives ?_) ?_
  · exact Gives.bind gives_quoted fun content quotable => Gives.pure (rules.string content quotable)
  refine GivesSolid.orElse (GivesSolid.of_gives ?_) ?_
  · refine Gives.bind gives_numeral fun amount read => Gives.pure ?_
    rcases read with ⟨decimal, rfl⟩
    exact rules.number decimal
  · exact gives_functionCall rules solid

theorem gives_filterPath : GivesSolid holds (filterPath sub) := by
  have start : GivesSolid holds (filtered sub) := by
    refine GivesSolid.bind (gives_primary rules solid) fun inner innerHolds => GivesSolid.behind ?_
    refine GivesSolid.bind (givesSolid_spaced (GivesSolid.of_gives (gives_predicate solid))) ?_
    intro predicates hold
    split
    · exact Gives.pure innerHolds
    · rename_i filled
      exact Gives.pure (rules.filter _ _ innerHolds filled hold)
  refine GivesSolid.bind start fun start startHolds => Gives.after fun _ => ?_
  refine Gives.bind (gives_maybe (gives_nextSteps solid)) fun rest hold => ?_
  cases rest with
  | none => exact Gives.pure startHolds
  | some taken =>
      rcases hold taken rfl with ⟨filled, hold⟩
      exact Gives.pure (rules.exprPath _ _ startHolds filled hold)

theorem gives_path : GivesSolid holds (path sub) := by
  refine GivesSolid.orElse (GivesSolid.of_gives (gives_rootedPath rules solid)) ?_
  exact GivesSolid.orElse (gives_filterPath rules solid)
    (GivesSolid.of_gives (gives_relativePath rules solid))

end

def Operator.Keeps (holds : Expr → Prop) (combine : Operator) : Prop :=
  ∀ left right, holds left → holds right → holds (combine left right)

theorem gives_leftGrouped {operand : Reader Expr} {operator : Reader Operator}
    (operands : GivesSolid holds operand) (operators : Gives (Operator.Keeps holds) operator) :
    GivesSolid holds (leftGrouped operand operator) := by
  have operations : Gives (fun taken : Operator × Expr => Operator.Keeps holds taken.1 ∧ holds taken.2)
      (operation operand operator) := by
    refine Gives.bind operators fun combine keeps => GivesSolid.behind ?_
    exact GivesSolid.bind operands fun next nextHolds => Gives.pure ⟨keeps, nextHolds⟩
  refine GivesSolid.bind operands fun first firstHolds => GivesSolid.behind ?_
  refine GivesSolid.bind (givesSolid_spaced (GivesSolid.of_gives operations)) fun others hold => ?_
  apply Gives.pure
  induction others generalizing first with
  | nil => exact firstHolds
  | cons taken others ih =>
      rcases List.forall_mem_cons.mp hold with ⟨⟨keeps, nextHolds⟩, othersHold⟩
      exact ih _ (keeps first taken.2 firstHolds nextHolds) othersHold

section
variable (rules : KeptByRules holds)
include rules

theorem gives_productOperator : Gives (Operator.Keeps holds) productOperator := by
  refine Gives.orElse ?_ (Gives.orElse ?_ ?_)
  · exact Gives.after fun _ => Gives.pure (rules.arithmetic .mul)
  · exact Gives.after fun _ => Gives.pure (rules.arithmetic .div)
  · exact Gives.after fun _ => Gives.pure (rules.arithmetic .mod)

theorem gives_sumOperator : Gives (Operator.Keeps holds) sumOperator := by
  apply Gives.orElse
  · exact Gives.after fun _ => Gives.pure (rules.arithmetic .add)
  · exact Gives.after fun _ => Gives.pure (rules.arithmetic .sub)

theorem gives_orderOperator : Gives (Operator.Keeps holds) orderOperator := by
  refine Gives.orElse ?_ (Gives.orElse ?_ (Gives.orElse ?_ ?_))
  · exact Gives.after fun _ => Gives.pure (rules.comparison .le)
  · exact Gives.after fun _ => Gives.pure (rules.comparison .ge)
  · exact Gives.after fun _ => Gives.pure (rules.comparison .lt)
  · exact Gives.after fun _ => Gives.pure (rules.comparison .gt)

theorem gives_equalityOperator : Gives (Operator.Keeps holds) equalityOperator := by
  apply Gives.orElse
  · exact Gives.after fun _ => Gives.pure (rules.comparison .eq)
  · exact Gives.after fun _ => Gives.pure (rules.comparison .ne)

theorem gives_unaryLevel (solid : GivesSolid holds sub) : GivesSolid holds (unaryLevel sub) := by
  have unions : GivesSolid holds (unionLevel sub) :=
    gives_leftGrouped (gives_path rules solid) (Gives.after fun _ => Gives.pure rules.union)
  apply GivesSolid.of_gives
  refine Gives.after fun signs => GivesSolid.behind ?_
  refine GivesSolid.bind unions fun operand operandHolds => Gives.pure ?_
  induction signs generalizing operand with
  | nil => exact operandHolds
  | cons sign signs ih => exact ih _ (rules.negate operand operandHolds)

theorem gives_orLevel (solid : GivesSolid holds sub) : GivesSolid holds (orLevel sub) := by
  have products := gives_leftGrouped (gives_unaryLevel rules solid) (gives_productOperator rules)
  have sums := gives_leftGrouped products (gives_sumOperator rules)
  have orders := gives_leftGrouped sums (gives_orderOperator rules)
  have equalities := gives_leftGrouped orders (gives_equalityOperator rules)
  have conjunctions := gives_leftGrouped equalities
    (Gives.after fun _ => Gives.pure (rules.connective .and) : Gives _ andOperator)
  exact gives_leftGrouped conjunctions
    (Gives.after fun _ => Gives.pure (rules.connective .or) : Gives _ orOperator)

theorem gives_exprUpTo (limit : Nat) : GivesSolid holds (exprUpTo limit) := by
  induction limit with
  | zero =>
      intro text _ value rest impossible
      cases impossible
  | succ limit ih => exact gives_orLevel rules ih

/-- What every rule keeps holds of every expression that is read from a text. -/
theorem holds_of_parse {text : String} {parsed : Expr} (given : parse? text = some parsed) :
    holds parsed := by
  have inner : GivesSolid holds expr := fun text => gives_exprUpTo rules (text.length + 1) text
  refine Gives.whole (GivesSolid.behind ?_) given
  refine GivesSolid.bind inner fun parsed parsedHolds => ?_
  exact Gives.after fun _ => Gives.pure parsedHolds

end

theorem forall_callsOfAll {holds : String × List Expr → Prop} {expressions : List Expr}
    (hold : ∀ expression ∈ expressions, ∀ call ∈ expression.calls, holds call) :
    ∀ call ∈ callsOfAll expressions, holds call := by
  intro call member
  rcases mem_callsOfAll.mp member with ⟨expression, listed, inside⟩
  exact hold expression listed call inside

theorem forall_callsOfSteps {holds : String × List Expr → Prop} {steps : List Step}
    (hold : StepsHold (fun expression => ∀ call ∈ expression.calls, holds call) steps) :
    ∀ call ∈ callsOfSteps steps, holds call := by
  intro call member
  rcases mem_callsOfSteps.mp member with ⟨step, listed, inside⟩
  exact forall_callsOfAll (hold step listed).predicates call inside

/-- That its calls can have the names they have is kept by every rule. -/
theorem keptByRules_callable : KeptByRules fun expression =>
    ∀ call ∈ expression.calls, IsCallable call.1 where
  number _ := by simp [calls]
  string _ _ := by simp [calls]
  var _ _ := by simp [calls]
  focus := by simp [calls]
  call _ _ callable _ hold := by
    rw [calls]
    exact List.forall_mem_cons.mpr ⟨callable, forall_callsOfAll hold⟩
  arithmetic _ _ _ left right := by rw [calls]; exact List.forall_mem_append.mpr ⟨left, right⟩
  connective _ _ _ left right := by rw [calls]; exact List.forall_mem_append.mpr ⟨left, right⟩
  comparison _ _ _ left right := by rw [calls]; exact List.forall_mem_append.mpr ⟨left, right⟩
  negate _ operand := by rw [calls]; exact operand
  union _ _ left right := by rw [calls]; exact List.forall_mem_append.mpr ⟨left, right⟩
  rootPath _ hold := by rw [calls]; exact forall_callsOfSteps hold
  focusPath _ _ _ hold := by rw [calls]; exact forall_callsOfSteps hold
  exprPath _ _ start _ hold := by
    rw [calls]
    exact List.forall_mem_append.mpr ⟨start, forall_callsOfSteps hold⟩
  filter _ _ primary _ hold := by
    rw [calls]
    exact List.forall_mem_append.mpr ⟨primary, forall_callsOfAll hold⟩

/-- An expression that is read from a text calls functions by names that calls can have. -/
theorem isCallable_of_parse {text : String} {parsed : Expr} (given : parse? text = some parsed) :
    ∀ call ∈ parsed.calls, IsCallable call.1 :=
  holds_of_parse keptByRules_callable given

end NodeQuery.Expr

import NodeQuery.Proofs.Expr.Printing

/-!
# Reading what was written

An expression that was read from some text is read again from the text that is written for it.  What
the rules of the grammar promise about the parts of an expression (names are names, strings lack a
quote, paths have steps) is what the text of each part needs to be read, so being read back is one of
the properties that every rule keeps.  An infinite number has no text that is read as a number, and so
the literals have to be finite.
-/

namespace NodeQuery.Expr

open Text.Reader

variable {text : List Char} {value : Expr} {depth level : Nat}

mutual

/-- The number literals in an expression. -/
def numbers : Expr → List Float
  | .number amount => [amount]
  | .string _ | .var _ | .focus => []
  | .call _ arguments => numbersOfAll arguments
  | .arithmetic _ left right | .connective _ left right | .comparison _ left right
  | .union left right => numbers left ++ numbers right
  | .negate operand => numbers operand
  | .rootPath steps | .focusPath steps => numbersOfSteps steps
  | .exprPath start steps => numbers start ++ numbersOfSteps steps
  | .filter primary predicates => numbers primary ++ numbersOfAll predicates

def numbersOfAll : List Expr → List Float
  | [] => []
  | first :: others => numbers first ++ numbersOfAll others

def numbersOfSteps : List Step → List Float
  | [] => []
  | .mk _ _ predicates :: steps => numbersOfAll predicates ++ numbersOfSteps steps

end

theorem mem_numbersOfAll {amount : Float} {expressions : List Expr} :
    amount ∈ numbersOfAll expressions ↔ ∃ expression ∈ expressions, amount ∈ expression.numbers := by
  induction expressions with
  | nil => simp [numbersOfAll]
  | cons first others ih => simp [numbersOfAll, ih]

theorem mem_numbersOfSteps {amount : Float} {taken : List Step} :
    amount ∈ numbersOfSteps taken ↔ ∃ only ∈ taken, amount ∈ numbersOfAll only.predicates := by
  induction taken with
  | nil => simp [numbersOfSteps]
  | cons first others ih =>
      cases first with
      | mk axis test predicates => simp [numbersOfSteps, Step.predicates, ih]

/-- If its numbers are finite an expression is read from its text, in brackets no deeper than the text
is long. -/
def IsReadBack (expression : Expr) : Prop :=
  (∀ amount ∈ expression.numbers, amount.isFinite = true) →
    Body expression.chars.length expression.chars expression

/-- No part is longer than all parts with separators. -/
theorem length_le_intercalate {separator part : List Char} {parts : List (List Char)}
    (member : part ∈ parts) : part.length ≤ (separator.intercalate parts).length := by
  rcases parts with _ | ⟨first, others⟩
  · cases member
  · rw [intercalate_cons, List.length_append]
    rcases List.mem_cons.mp member with rfl | later
    · omega
    · have inside := (List.sublist_flatten_of_mem
        (List.mem_map_of_mem (f := fun other => separator ++ other) later)).length_le
      rw [List.length_append, ← List.flatMap_def] at inside
      omega

theorem length_le_predicatesChars {part : List Char} {parts : List (List Char)}
    (member : part ∈ parts) : part.length + 2 ≤ (predicatesChars parts).length := by
  have inside := (List.sublist_flatten_of_mem
    (List.mem_map_of_mem (f := fun inner => '[' :: (inner ++ [']'])) member)).length_le
  rw [← List.flatMap_def, List.length_cons, List.length_append] at inside
  exact inside

section
variable {left right : Expr}

theorem IsReadBack.binary {sign : String} {combine : Operator}
    (isOperator : IsOperator level sign combine)
    (written : (combine left right).chars = binaryChars sign left.chars right.chars)
    (literals : (combine left right).numbers = left.numbers ++ right.numbers)
    (leftBack : IsReadBack left) (rightBack : IsReadBack right) : IsReadBack (combine left right) := by
  intro finite
  rw [literals] at finite
  rcases List.forall_mem_append.mp finite with ⟨leftFinite, rightFinite⟩
  have leftBody := (leftBack leftFinite).mono (Nat.le_add_right _ right.chars.length)
  have rightBody := (rightBack rightFinite).mono (Nat.le_add_left _ left.chars.length)
  have body := Body.binary (Operand.parenthesised leftBody) (Operand.parenthesised rightBody) isOperator
  rw [written]
  apply body.mono
  simp only [binaryChars, parenthesised, List.length_append, List.length_cons]
  omega

end

theorem IsReadBack.stepBodies {taken : List Step} (hold : StepsHold IsReadBack taken)
    (finite : ∀ amount ∈ numbersOfSteps taken, amount.isFinite = true)
    (enough : (pathChars (taken.map Step.chars)).length ≤ depth + 2) :
    ∀ only ∈ taken, StepBody depth only := by
  intro only listed
  refine ⟨(hold only listed).spelled, fun predicate inside => ?_⟩
  have body := (hold only listed).predicates predicate inside fun amount member =>
    finite amount (mem_numbersOfSteps.mpr
      ⟨only, listed, mem_numbersOfAll.mpr ⟨predicate, inside, member⟩⟩)
  apply body.mono
  have outer : (only.chars).length ≤ (pathChars (taken.map Step.chars)).length :=
    length_le_intercalate (List.mem_map_of_mem listed)
  rcases only with ⟨axis, test, predicates⟩
  have inner := length_le_predicatesChars (List.mem_map_of_mem (f := chars) inside)
  simp only [Step.chars, stepChars, List.length_append, List.length_cons] at outer
  change predicate.chars.length + 2 ≤ (predicatesChars (predicates.map chars)).length at inner
  omega

theorem IsReadBack.bodies {expressions : List Expr}
    (back : ∀ expression ∈ expressions, IsReadBack expression)
    (finite : ∀ amount ∈ numbersOfAll expressions, amount.isFinite = true) :
    ∀ expression ∈ expressions, Body expression.chars.length expression.chars expression :=
  fun expression listed => back expression listed fun amount inside =>
    finite amount (mem_numbersOfAll.mpr ⟨expression, listed, inside⟩)

theorem Body.atLength (body : Body 1 text value) : Body text.length text value := by
  apply body.mono
  rcases body.begins with ⟨c, others, spelled, _⟩
  rw [spelled, List.length_cons]
  omega

/-- Being read from its own text is kept by every rule of the grammar. -/
theorem keptByRules_readBack : KeptByRules IsReadBack where
  number decimal finite := by
    rw [chars]
    exact (Body.number (finite _ (List.mem_singleton.mpr rfl))).atLength
  string text quotable _ := (Body.string quotable).atLength
  var name named _ := by
    rw [chars]
    exact (Body.var named).atLength
  focus _ := by
    rw [chars]
    exact Operand.focus.body
  call function arguments callable named back finite := by
    have shorter {argument : Expr} (listed : argument ∈ arguments) :
        argument.chars.length ≤ ([',', ' '].intercalate (arguments.map chars)).length :=
      length_le_intercalate (List.mem_map_of_mem listed)
    have body := Body.call named callable.notTest fun argument listed =>
      (IsReadBack.bodies back finite argument listed).mono (shorter listed)
    rw [chars, charsOfAll_eq]
    apply body.mono
    simp only [parenthesised, List.length_append, List.length_cons]
    omega
  arithmetic operator left right leftBack rightBack :=
    IsReadBack.binary (isOperator_arithmetic operator) (by rw [chars]) (by rw [numbers])
      leftBack rightBack
  connective operator left right leftBack rightBack :=
    IsReadBack.binary (isOperator_connective operator) (by rw [chars]) (by rw [numbers])
      leftBack rightBack
  comparison operator left right leftBack rightBack :=
    IsReadBack.binary (isOperator_comparison operator) (by rw [chars]) (by rw [numbers])
      leftBack rightBack
  negate operand back finite := by
    rw [chars]
    apply (Body.minus (Operand.parenthesised (back finite))).mono
    simp only [parenthesised, List.length_append, List.length_cons]
    omega
  union left right leftBack rightBack :=
    IsReadBack.binary isOperator_union (by rw [chars]) (by rw [numbers])
      leftBack rightBack
  rootPath taken hold finite := by
    rw [chars, charsOfSteps_eq]
    exact Body.rootPath (IsReadBack.stepBodies hold finite (Nat.le_add_right _ 2))
  focusPath taken filled moves hold finite := by
    have long : 1 ≤ (pathChars (taken.map Step.chars)).length := by
      rcases begins_path filled [] with ⟨axis, behind, spelled⟩
      rw [List.append_nil] at spelled
      rw [spelled, List.length_append, List.length_cons]
      omega
    have bodies := IsReadBack.stepBodies hold finite
      (by omega : _ ≤ (pathChars (taken.map Step.chars)).length - 1 + 2)
    have body := Body.focusPath bodies filled moves
    rw [Nat.sub_add_cancel long] at body
    rwa [chars, charsOfSteps_eq]
  exprPath start taken startBack filled hold finite := by
    rw [numbers] at finite
    rcases List.forall_mem_append.mp finite with ⟨startFinite, stepsFinite⟩
    have bodies := IsReadBack.stepBodies hold stepsFinite
      (by omega : _ ≤ start.chars.length + (pathChars (taken.map Step.chars)).length + 2)
    have body := Body.exprPath bodies filled ((startBack startFinite).mono (Nat.le_add_right _ _))
    rw [chars, charsOfSteps_eq]
    apply body.mono
    simp only [parenthesised, List.length_append, List.length_cons]
    omega
  filter primary predicates primaryBack filled back finite := by
    rw [numbers] at finite
    rcases List.forall_mem_append.mp finite with ⟨primaryFinite, predicatesFinite⟩
    let depth := primary.chars.length + (predicatesChars (predicates.map chars)).length
    have bodies : ∀ predicate ∈ predicates, Body depth predicate.chars predicate := by
      intro predicate listed
      apply (IsReadBack.bodies back predicatesFinite predicate listed).mono
      have inside := length_le_predicatesChars (List.mem_map_of_mem (f := chars) listed)
      change predicate.chars.length + 2 ≤ _ at inside
      omega
    have body := Body.filter ((primaryBack primaryFinite).mono (Nat.le_add_right _ _)) filled bodies
    rw [chars, charsOfAll_eq]
    apply body.mono
    simp only [parenthesised, List.length_append, List.length_cons]
    omega

/-- An expression that was read from a text, and whose numbers are finite, is read again from the text
that is written for it with all parentheses. -/
theorem parse_written {source : String} {parsed : Expr} (given : parse? source = some parsed)
    (finite : ∀ amount ∈ parsed.numbers, amount.isFinite = true) :
    parse? parsed.written = some parsed := by
  have body := holds_of_parse keptByRules_readBack given finite
  have spelled : parsed.written.toList = parsed.chars := String.toList_ofList
  have reads := body.reads (parsed.chars.length + 1) (Nat.le_succ _) [] .nil
  have solid := body.solid []
  rw [List.append_nil, ← spelled] at reads solid
  exact parse?_of_orLevel solid reads

/-- An expression with an operator of each kind, a filtered call, and a quote and a fraction in its
literals. -/
def mixedExpr : Expr :=
  .connective .or
    (.negate (.union
      (.exprPath
        (.filter (.call "n:f" [.var "v", .string "say \"hi\""])
          [.comparison .gt (.call "last" []) (.number (Numeral.Decimal.toFloat ⟨250, 2⟩))])
        [.mk .attribute (.named "x") []])
      (.rootPath [.descendantOrSelf, .mk .child .text []])))
    .focus

/-- A text that is read as the mixed expression. -/
def mixedSource : String := "-(n:f($v, 'say \"hi\"')[last()>2.50]/@x | //text()) or ."

def mixedText : String :=
  "(-((((n:f($v, 'say \"hi\"'))[(last()) > (2.5)])/attribute::x)" ++
    " | (/descendant-or-self::node()/child::text()))) or (.)"

set_option maxRecDepth 4096 in
/-- The mixed expression is read again from the text that is written for it. -/
theorem parse_written_mixed :
    parse? mixedSource = some mixedExpr ∧ (∀ amount ∈ mixedExpr.numbers, amount.isFinite = true) ∧
      mixedExpr.written = mixedText ∧ parse? mixedExpr.written = some mixedExpr := by
  have read : parse? mixedSource = some mixedExpr := rfl
  have finite : ∀ amount ∈ mixedExpr.numbers, amount.isFinite = true := by decide +kernel
  exact ⟨read, finite, by decide +kernel, parse_written read finite⟩

end NodeQuery.Expr

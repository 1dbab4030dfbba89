import NodeQuery.Proofs.Expr.Reflection

/-!
# Texts that are read

An expression is read from a text exactly if the grammar matches the whole of it, and it is then the
expression that is put together from the tree: no tree that the grammar gives is refused.  Every rule
with an expression inside reflects its reader if the expression does on texts shorter by the bracket in
front of it.
-/

namespace NodeQuery.Expr

open Text (Reader ParseTree Peg Grammar)
open Text.Reader
open Text.Grammar

variable {α : Type} {whole : List Char} {bound : Nat}

/-- The tree of a rule is built into what is read. -/
def Builds (rule : Rule) : Meaning Rule Expr := fun value used trees =>
  ∃ parts, trees = [.node rule used parts] ∧ build? (.node rule used parts) = some value

/-- One tree is built into what is read. -/
def BuildsOne : Meaning Rule Expr := fun value _ trees =>
  ∃ tree, trees = [tree] ∧ build? tree = some value

theorem Builds.one {rule : Rule} {value : Expr} {used : List Char} {trees : List (ParseTree Rule)}
    (builds : Builds rule value used trees) : BuildsOne value used trees := by
  rcases builds with ⟨parts, shown, built⟩
  exact ⟨_, shown, built⟩

theorem buildAll?_of_each {meaning : Meaning Rule Expr} {values : List Expr} {trees : List (ParseTree Rule)}
    (each : meaning.Each values trees)
    (one : ∀ value used trees, meaning value used trees → BuildsOne value used trees) :
    buildAll? trees = some values := by
  induction each with
  | nil => rw [buildAll?]
  | cons first _ ih =>
      rcases one _ _ _ first with ⟨tree, rfl, built⟩
      rw [List.singleton_append, buildAll?, built, ih]
      rfl

theorem reflects_spaced {peg : Peg Rule} {item : Reader α} {meaning : Meaning Rule α}
    (filled : ∀ value used trees, meaning value used trees → used ≠ [])
    (each : Reflects grammar whole bound .spaced peg item meaning) :
    Reflects grammar whole bound .spaced (.many peg) (spaced item)
      (fun values _ trees => meaning.Each values trees) := by
  unfold spaced
  exact each.many filled blanks_skips

/-- A rule for an expression, from what its body is built into. -/
theorem reflects_builds (rule : Rule) (normal : rule.kind = .normal) {reader : Reader Expr}
    (body : Reflects grammar whole bound .spaced rule.body reader
      (fun value _ parts => ∀ used, build? (.node rule used parts) = some value)) :
    Reflects grammar whole bound .spaced (.rule rule) reader (Builds rule) := by
  have inside : Reflects grammar whole bound (rule.kind.inside .spaced) rule.body reader
      (fun value _ parts => ∀ used, build? (.node rule used parts) = some value) := by
    rwa [normal]
  apply (reflects_rule rule (by rw [normal]; nofun) (by decide) inside).mono
  rintro value used trees ⟨parts, built, rfl⟩
  exact ⟨parts, rfl, built used⟩

/-!
## Rules with an expression inside

The rule for expressions is taken to be reflected on texts up to a bound, and what puts brackets around
it is reflected on texts that are longer by one.
-/

section
variable {expr : Reader Expr} (sub : Reflects grammar whole bound .spaced (.rule .expr) expr (Builds .expr))
include sub

/-- An expression in brackets. -/
theorem reflects_bracketed (rule : Rule) {left right : String} (normal : rule.kind = .normal)
    (some_ : left.toList ≠ []) (body : rule.body = .seq (.text left) (.seq (.rule .expr) (.text right)))
    (builds : ∀ used inner, build? (.node rule used [inner]) = build? inner) :
    Reflects grammar whole (bound + 1) .spaced (.rule rule)
      (do
        token left
        blanks
        let inner ← expr
        blanks
        token right
        pure inner)
      (fun value used trees => used ≠ [] ∧ BuildsOne value used trees) := by
  have inside : Reflects grammar whole (bound + 1) (rule.kind.inside .spaced) rule.body
      (do
        token left
        blanks
        let inner ← expr
        blanks
        token right
        pure inner)
      (fun value used parts => used ≠ [] ∧ ∃ inner, parts = [inner] ∧ build? inner = some value) := by
    rw [normal, body]
    refine (reflects_token left).spacedAfter blanks_skips (token_filled some_) ?_
    rintro _ _ _ gap ⟨rfl, rfl⟩
    refine sub.spaced blanks_skips ?_
    rintro inner text _ _ ⟨parts, rfl, built⟩
    apply (reflects_token right).map
    rintro _ _ _ ⟨rfl, rfl⟩
    exact ⟨by simp [some_], _, rfl, built⟩
  apply (reflects_rule rule (by rw [normal]; nofun) (by decide) inside).mono
  rintro value used trees ⟨parts, ⟨filled, inner, rfl, built⟩, rfl⟩
  exact ⟨filled, _, rfl, (builds used inner).trans built⟩

theorem reflects_predicate :
    Reflects grammar whole (bound + 1) .spaced (.rule .predicate) (predicate expr)
      (fun value used trees => used ≠ [] ∧ BuildsOne value used trees) :=
  reflects_bracketed sub .predicate rfl (by decide) rfl fun _ _ => by rw [build?, buildFirst?]

theorem reflects_predicates :
    Reflects grammar whole (bound + 1) .spaced (.many (.rule .predicate)) (spaced (predicate expr))
      (fun values _ trees => buildAll? trees = some values) :=
  (reflects_spaced (fun _ _ _ means => means.1) (reflects_predicate sub)).mono fun _ _ _ each =>
    buildAll?_of_each each fun _ _ _ means => means.2

theorem reflects_step :
    Reflects grammar whole (bound + 1) .spaced (.rule .step) (step expr)
      (fun taken used trees => ∃ parts, trees = [.node .step used parts] ∧
        buildStep? parts = some taken) := by
  have dots : Reflects grammar whole (bound + 1) .spaced (.rule .abbrevStep) dotStep
      (fun taken _ parts => buildStep? parts = some taken) := by
    apply reflects_dotStep.mono
    rintro taken used trees ⟨parts, rfl, built⟩
    exact built []
  have tested : Reflects grammar whole (bound + 1) .spaced
      (.seq (.rule .axisStep) (.many (.rule .predicate)))
      (do
        let lead ← axisAndTest
        blanks
        let predicates ← spaced (predicate expr)
        pure (.mk lead.1 lead.2 predicates))
      (fun taken _ parts => buildStep? parts = some taken) := by
    refine reflects_axisAndTest.spaced blanks_skips ?_
    rintro ⟨axis, test⟩ used _ _ ⟨parts, built, rfl⟩
    apply (reflects_predicates sub).map
    intro predicates text trees each
    rw [List.singleton_append, buildStep?, built, each]
    · rfl
    · nofun
  have body : Reflects grammar whole (bound + 1) .spaced Rule.step.body (step expr) _ :=
    dots.choice tested
  apply (reflects_rule .step (by decide) (by decide) body).mono
  rintro taken used trees ⟨parts, built, shown⟩
  exact ⟨parts, shown, built⟩

omit sub in
theorem buildSteps?_of_each {meaning : Meaning Rule (List Step)} {groups : List (List Step)}
    {trees : List (ParseTree Rule)} (each : meaning.Each groups trees)
    (one : ∀ group used trees, meaning group used trees → ∀ others,
      buildSteps? (trees ++ others) = (buildSteps? others).map (group ++ ·)) :
    buildSteps? trees = some groups.flatten := by
  induction each with
  | nil => rw [buildSteps?, List.flatten_nil]
  | cons first _ ih =>
      rw [one _ _ _ first, ih, List.flatten_cons]
      rfl

theorem reflects_nextStep :
    Reflects grammar whole (bound + 1) .spaced (.seq (.rule .pathSep) (.rule .step)) (nextStep expr)
      (fun group used trees => used ≠ [] ∧ ∀ others,
        buildSteps? (trees ++ others) = (buildSteps? others).map (group ++ ·)) := by
  refine reflects_separator.spaced blanks_skips ?_
  rintro between used _ gap ⟨filled, parts, rfl, stands⟩
  apply (reflects_step sub).map
  rintro next text _ ⟨inside, rfl, built⟩
  refine ⟨by simp [filled], fun others => ?_⟩
  rw [List.singleton_append, List.cons_append, List.singleton_append, buildSteps?, buildSteps?, built,
    stands]
  cases buildSteps? others with
  | none => rfl
  | some steps => simp

/-- Steps with slashes between them. -/
theorem reflects_steps :
    Reflects grammar whole (bound + 1) .spaced (.rule .relativePath) (steps expr)
      (fun taken used trees => ∃ parts, trees = [.node .relativePath used parts] ∧
        buildSteps? parts = some taken) := by
  have body : Reflects grammar whole (bound + 1) .spaced Rule.relativePath.body (steps expr)
      (fun taken _ parts => buildSteps? parts = some taken) := by
    refine (reflects_step sub).spaced blanks_skips ?_
    rintro first _ _ _ ⟨inside, rfl, built⟩
    apply (reflects_spaced (fun _ _ _ means => means.1) (reflects_nextStep sub)).map
    intro groups _ trees each
    rw [List.singleton_append, buildSteps?, built,
      buildSteps?_of_each each fun _ _ _ means => means.2]
    rfl
  apply (reflects_rule .relativePath (by decide) (by decide) body).mono
  rintro taken used trees ⟨parts, built, shown⟩
  exact ⟨parts, shown, built⟩

theorem reflects_relativePath :
    Reflects grammar whole (bound + 1) .spaced (.rule .relativePath) (relativePath expr)
      (Builds .relativePath) := by
  refine (reflects_steps sub).finish ?_
  rintro taken used _ ⟨parts, rfl, built⟩
  rcases taken with _ | ⟨only, _ | ⟨second, others⟩⟩
  · exact ⟨_, rfl, parts, rfl, by rw [build?, built]; rfl⟩
  · cases self : only.isSelf with
    | true =>
        refine ⟨.focus, by simp only [self, if_true], parts, rfl, ?_⟩
        rw [build?, built]
        change (if only.isSelf then some focus else some (focusPath [only])) = some focus
        rw [self, if_pos rfl]
    | false =>
        refine ⟨.focusPath [only], by simp only [self, Bool.false_eq_true, if_false], parts, rfl, ?_⟩
        rw [build?, built]
        change (if only.isSelf then some focus else some (focusPath [only])) = some (focusPath [only])
        rw [self, if_neg Bool.false_ne_true]
  · exact ⟨_, rfl, parts, rfl, by rw [build?, built]; rfl⟩

omit sub in
theorem buildRooted?_path {text : List Char} {parts : List (ParseTree Rule)} {taken : List Step}
    (built : buildSteps? parts = some taken) :
    buildRooted? [.node .relativePath text parts] = some taken := by
  rw [buildRooted?, buildRooted?, built]
  change some (taken ++ []) = some taken
  rw [List.append_nil]

theorem reflects_rootedPath :
    Reflects grammar whole (bound + 1) .spaced (.rule .absolutePath) (rootedPath expr)
      (Builds .absolutePath) := by
  apply reflects_builds .absolutePath rfl
  apply Reflects.choice
  · refine (reflects_sign (by decide)).spaced blanks_skips ?_
    rintro _ _ _ _ ⟨_, rfl⟩
    apply (reflects_steps sub).map
    rintro taken text _ ⟨parts, rfl, built⟩ used
    rw [List.singleton_append, build?, buildRooted?, buildRooted?_path built]
    rfl
  · refine (reflects_sign (by decide)).spaced blanks_skips ?_
    rintro _ _ _ _ ⟨_, rfl⟩
    apply (reflects_steps sub).optional.map
    rintro (_ | taken) text trees means used
    · rcases means with ⟨rfl, rfl⟩
      rw [List.append_nil, build?, buildRooted?, buildRooted?]
      · rfl
      · simp
      · simp
    · rcases means with ⟨parts, rfl, built⟩
      rw [List.singleton_append, build?, buildRooted?, buildRooted?_path built]
      · rfl
      · simp
      · simp

theorem reflects_afterComma :
    Reflects grammar whole bound .spaced (.seq (.text ",") (.rule .expr)) (afterComma expr)
      (fun value used trees => used ≠ [] ∧ BuildsOne value used trees) := by
  refine (reflects_token ",").spaced blanks_skips ?_
  rintro _ _ _ _ ⟨rfl, rfl⟩
  apply sub.mono
  rintro value used trees builds
  exact ⟨nofun, builds.one⟩

theorem reflects_arguments :
    Reflects grammar whole bound .spaced
      (.seq (.rule .expr) (.many (.seq (.text ",") (.rule .expr)))) (commaSeparated expr)
      (fun values _ trees => buildAll? trees = some values) := by
  refine sub.spaced blanks_skips ?_
  rintro first used _ _ ⟨parts, rfl, built⟩
  apply (reflects_spaced (fun _ _ _ means => means.1) (reflects_afterComma sub)).map
  intro others _ trees each
  rw [List.singleton_append, buildAll?, built, buildAll?_of_each each fun _ _ _ means => means.2]
  rfl

theorem reflects_functionCall :
    Reflects grammar whole (bound + 1) .spaced (.rule .functionCall) (functionCall expr)
      (Builds .functionCall) := by
  apply reflects_builds .functionCall rfl
  have head : Reflects grammar whole (bound + 1) .spaced (.seq (.rule .kindName) (.text "("))
      (do
        testWord
        blanks
        token "(") (fun _ _ _ => True) :=
    reflects_testWord.spaced blanks_skips fun _ _ _ _ _ => (reflects_token "(").mono fun _ _ _ _ => trivial
  refine head.absent.spaced blanks_skips ?_
  rintro _ _ _ _ ⟨rfl, rfl⟩
  refine (reflects_qname (by decide)).spaced blanks_skips ?_
  rintro function name _ _ ⟨named, filled, inside, rfl⟩
  refine (reflects_token "(").spacedAfter blanks_skips (token_filled (by decide)) ?_
  rintro _ _ _ _ ⟨rfl, rfl⟩
  refine (reflects_arguments sub).optional.spaced blanks_skips ?_
  rintro arguments used trees _ means
  apply (reflects_token ")").map
  rintro _ _ _ ⟨rfl, rfl⟩ text
  have built : buildAll? trees = some (arguments.getD []) := by
    cases arguments with
    | none => rw [means.2, buildAll?]; rfl
    | some values => exact means
  rw [List.nil_append, List.singleton_append, List.append_nil, List.nil_append, build?, built, ← named]
  simp [ParseTree.text]

omit sub in
theorem reflects_variable :
    Reflects grammar whole bound .spaced (.rule .varRef)
      (do token "$"; let taken ← name; pure (Expr.var taken)) BuildsOne := by
  have sides : grammar.Tight .compound := tight_of_ne grammar (by decide)
  have body : Reflects grammar whole bound .compound Rule.varRef.body
      (do token "$"; let taken ← name; pure (Expr.var taken))
      (fun value _ parts => ∀ used, build? (.node .varRef used parts) = some value) := by
    refine Reflects.tight sides (reflects_token "$") ?_
    rintro _ _ _ ⟨rfl, rfl⟩
    apply (reflects_qname (by decide)).map
    rintro taken _ _ ⟨rfl, _, parts, rfl⟩ used
    rw [List.nil_append, build?, ParseTree.text, String.ofList_toList]
  apply (reflects_rule .varRef (by decide) (by decide) body).mono
  rintro value used trees ⟨parts, built, rfl⟩
  exact ⟨_, rfl, built used⟩

theorem reflects_parenthesised :
    Reflects grammar whole (bound + 1) .spaced (.rule .parenExpr)
      (do
        token "("
        blanks
        let inner ← expr
        blanks
        token ")"
        pure inner) BuildsOne :=
  (reflects_bracketed sub .parenExpr rfl (by decide) rfl fun _ _ => by rw [build?, buildFirst?]).mono
    fun _ _ _ means => means.2

theorem reflects_primary :
    Reflects grammar whole (bound + 1) .spaced (.rule .primaryExpr) (primary expr)
      (Builds .primaryExpr) := by
  have string_ : Reflects grammar whole (bound + 1) .spaced (.rule .stringLiteral)
      (do let content ← quoted; pure (Expr.string content)) BuildsOne := by
    apply reflects_quoted.map
    rintro content used _ ⟨quote, rfl⟩
    refine ⟨_, rfl, ?_⟩
    rw [build?]
    simp [ParseTree.text]
  have number_ : Reflects grammar whole (bound + 1) .spaced (.rule .number)
      (do let amount ← numeral; pure (Expr.number amount)) BuildsOne := by
    apply reflects_numeral.map
    rintro amount used _ ⟨decimal, found, rfl, rfl⟩
    refine ⟨_, rfl, ?_⟩
    rw [build?, found]
    rfl
  have call_ : Reflects grammar whole (bound + 1) .spaced (.rule .functionCall) (functionCall expr)
      BuildsOne := (reflects_functionCall sub).mono fun _ _ _ builds => builds.one
  apply reflects_builds .primaryExpr rfl
  have choice := reflects_variable.choice ((reflects_parenthesised sub).choice
    (string_.choice (number_.choice call_)))
  apply choice.mono
  rintro value _ _ ⟨tree, rfl, built⟩ used
  rw [build?, buildFirst?, built]

theorem reflects_filtered :
    Reflects grammar whole (bound + 1) .spaced (.rule .filterExpr) (filtered expr)
      (Builds .filterExpr) := by
  apply reflects_builds .filterExpr rfl
  refine (reflects_primary sub).spaced blanks_skips ?_
  rintro inner _ _ _ ⟨parts, rfl, built⟩
  refine (reflects_predicates sub).finish ?_
  intro predicates used trees each
  cases predicates with
  | nil =>
      refine ⟨inner, rfl, fun text => ?_⟩
      rw [List.singleton_append, build?, built, each]
      rfl
  | cons first others =>
      refine ⟨.filter inner (first :: others), rfl, fun text => ?_⟩
      rw [List.singleton_append, build?, built, each]
      rfl

theorem reflects_nextSteps :
    Reflects grammar whole (bound + 1) .spaced (.seq (.rule .pathSep) (.rule .relativePath))
      (nextSteps expr)
      (fun taken _ trees => ∀ start value text, build? start = some value →
        build? (.node .filterPath text (start :: trees)) = some (.exprPath value taken)) := by
  refine reflects_separator.spaced blanks_skips ?_
  rintro between _ _ _ ⟨_, inside, rfl, stands⟩
  apply (reflects_steps sub).map
  rintro taken _ _ ⟨parts, rfl, built⟩ start value text given
  rw [List.singleton_append, build?, given, built, stands]
  rfl

theorem reflects_filterPath :
    Reflects grammar whole (bound + 1) .spaced (.rule .filterPath) (filterPath expr)
      (Builds .filterPath) := by
  apply reflects_builds .filterPath rfl
  refine (reflects_filtered sub).spaced blanks_skips ?_
  rintro start _ _ _ ⟨parts, rfl, built⟩
  refine (reflects_nextSteps sub).optional.finish ?_
  rintro (_ | taken) used trees means
  · refine ⟨start, rfl, fun text => ?_⟩
    rw [means.2, List.append_nil, build?, built]
  · exact ⟨.exprPath start taken, rfl, fun text => means _ start text built⟩

theorem reflects_path :
    Reflects grammar whole (bound + 1) .spaced (.rule .pathExpr) (path expr) (Builds .pathExpr) := by
  apply reflects_builds .pathExpr rfl
  have choice := ((reflects_rootedPath sub).mono fun _ _ _ => Builds.one).choice
    (((reflects_filterPath sub).mono fun _ _ _ => Builds.one).choice
      ((reflects_relativePath sub).mono fun _ _ _ => Builds.one))
  apply choice.mono
  rintro value _ _ ⟨tree, rfl, built⟩ used
  rw [build?, buildFirst?, built]

end

/-!
## Levels of operators

An operation is put together on top of what is left of it, so the operations of a level are gathered from
the left.
-/

/-- An operation is built on top of what is left of it. -/
def BuildsOperation : Meaning Rule (Operator × Expr) := fun taken used trees =>
  used ≠ [] ∧ ∃ operator operand, trees = [operator, operand] ∧
    combine? (firstToken operator) = some taken.1 ∧ build? operand = some taken.2

theorem buildChain?_of_each {operations : List (Operator × Expr)} {trees : List (ParseTree Rule)}
    (each : Meaning.Each BuildsOperation operations trees) (left : Expr) :
    buildChain? left trees =
      some (operations.foldl (fun left (combine, right) => combine left right) left) := by
  induction each generalizing left with
  | nil => rw [buildChain?]; rfl
  | @cons taken _ _ _ _ first _ ih =>
      rcases first with ⟨_, operator, operand, rfl, combines, built⟩
      rw [List.cons_append, List.singleton_append, buildChain?, built, combines]
      exact ih (taken.1 left taken.2)

section
variable {operandRule : Rule} {operator : Peg Rule} {operandReader : Reader Expr}
variable {operatorReader : Reader Operator}
variable (operand : Reflects grammar whole bound .spaced (.rule operandRule) operandReader
  (Builds operandRule))
include operand

theorem reflects_operation
    (sign : Reflects grammar whole bound .spaced operator operatorReader Operates) :
    Reflects grammar whole bound .spaced (.seq operator (.rule operandRule))
      (operation operandReader operatorReader) BuildsOperation := by
  refine sign.spaced blanks_skips ?_
  rintro combine used _ gap ⟨filled, tree, rfl, combines⟩
  apply operand.map
  rintro next text _ ⟨parts, rfl, built⟩
  exact ⟨by simp [filled], tree, _, rfl, combines, built⟩

/-- Operands with operators of one level between them. -/
theorem reflects_level (rule : Rule) (normal : rule.kind = .normal)
    (body : rule.body = Rule.chain operandRule operator)
    (builds : ∀ used first others, build? (.node rule used (first :: others)) =
      (build? first).bind fun left => buildChain? left others)
    (sign : Reflects grammar whole bound .spaced operator operatorReader Operates) :
    Reflects grammar whole bound .spaced (.rule rule) (leftGrouped operandReader operatorReader)
      (Builds rule) := by
  apply reflects_builds rule normal
  rw [body]
  refine operand.spaced blanks_skips ?_
  rintro first _ _ _ ⟨parts, rfl, built⟩
  apply (reflects_spaced (fun _ _ _ means => means.1) (reflects_operation operand sign)).map
  intro operations _ trees each used
  rw [List.singleton_append, builds, built]
  exact buildChain?_of_each each first

end

section
variable {expr : Reader Expr} (sub : Reflects grammar whole bound .spaced (.rule .expr) expr (Builds .expr))
include sub

theorem reflects_alternative :
    Reflects grammar whole (bound + 1) .spaced (.seq (.rule (.sign "|")) (.rule .pathExpr))
      (operation (path expr) unionOperator)
      (fun taken used trees => used ≠ [] ∧ taken.1 = .union ∧ ∀ left others,
        buildUnion? (some left) (trees ++ others) = buildUnion? (some (.union left taken.2)) others) := by
  have sign : Reflects grammar whole (bound + 1) .spaced (.rule (.sign "|")) unionOperator
      (fun combine used trees => combine = .union ∧ Shows (.sign "|") combine used trees) := by
    apply (reflects_sign (by decide)).map
    intro _ used trees shown
    exact ⟨rfl, shown⟩
  refine sign.spaced blanks_skips ?_
  rintro _ used _ gap ⟨rfl, filled, rfl⟩
  apply (reflects_path sub).map
  rintro next text _ ⟨parts, rfl, built⟩
  refine ⟨by simp [filled], rfl, fun left others => ?_⟩
  rw [List.singleton_append, List.cons_append, List.singleton_append, buildUnion?, buildUnion?, built]
  · rfl
  · simp

omit sub in
theorem buildUnion?_of_each {operations : List (Operator × Expr)} {trees : List (ParseTree Rule)}
    {meaning : Meaning Rule (Operator × Expr)} (each : meaning.Each operations trees)
    (one : ∀ taken used trees, meaning taken used trees → taken.1 = .union ∧ ∀ left others,
      buildUnion? (some left) (trees ++ others) = buildUnion? (some (.union left taken.2)) others)
    (left : Expr) :
    buildUnion? (some left) trees =
      some (operations.foldl (fun left (combine, right) => combine left right) left) := by
  induction each generalizing left with
  | nil => rw [buildUnion?]; rfl
  | @cons taken _ _ _ _ first _ ih =>
      rcases taken with ⟨combine, right⟩
      rcases one _ _ _ first with ⟨rfl, goesOn⟩
      exact (goesOn left _).trans (ih (.union left right))

theorem reflects_unionLevel :
    Reflects grammar whole (bound + 1) .spaced (.rule .unionExpr) (unionLevel expr)
      (Builds .unionExpr) := by
  apply reflects_builds .unionExpr rfl
  refine (reflects_path sub).spaced blanks_skips ?_
  rintro first _ _ _ ⟨parts, rfl, built⟩
  apply (reflects_spaced (fun _ _ _ means => means.1) (reflects_alternative sub)).map
  intro operations _ trees each used
  rw [List.singleton_append, build?, buildUnion?, built]
  · exact buildUnion?_of_each each (fun _ _ _ means => means.2) first
  · simp

omit sub in
theorem buildSigned?_of_each {signs : List Unit} {trees : List (ParseTree Rule)}
    (each : Meaning.Each (Shows (.sign "-")) signs trees) (before : Nat) (others : List (ParseTree Rule)) :
    buildSigned? none before (trees ++ others) = buildSigned? none (before + signs.length) others := by
  induction each generalizing before with
  | nil => rfl
  | cons first _ ih =>
      rcases first with ⟨_, rfl⟩
      rw [List.singleton_append, List.cons_append, buildSigned?, ih, List.length_cons, Nat.add_assoc,
        Nat.add_comm 1]

omit sub in
theorem repeat_negate (signs : List Unit) (operand : Expr) :
    Nat.repeat .negate signs.length operand = signs.foldl (fun inner _ => .negate inner) operand := by
  induction signs using List.reverseRecOn with
  | nil => rfl
  | append_singleton signs last ih =>
      rw [List.length_append, List.length_singleton, Nat.repeat, ih, List.foldl_append]
      rfl

/-- Any number of minus signs. -/
theorem reflects_unaryLevel :
    Reflects grammar whole (bound + 1) .spaced (.rule .unaryExpr) (unaryLevel expr)
      (Builds .unaryExpr) := by
  apply reflects_builds .unaryExpr rfl
  have minus : Reflects grammar whole (bound + 1) .spaced (.rule (.sign "-")) (token "-")
      (Shows (.sign "-")) := reflects_sign (by decide)
  refine (reflects_spaced (fun _ _ _ means => means.1) minus).spaced blanks_skips ?_
  intro signs _ trees _ each
  apply (reflects_unionLevel sub).map
  rintro operand _ _ ⟨parts, rfl, built⟩ used
  have last : build? (.node .unionExpr _ parts) = some operand := built
  rw [build?, buildSigned?_of_each each, buildSigned?, buildSigned?, last, Nat.zero_add]
  · exact congrArg some (repeat_negate signs operand)
  · simp

theorem reflects_orLevel :
    Reflects grammar whole (bound + 1) .spaced (.rule .orExpr) (orLevel expr) (Builds .orExpr) := by
  have product := reflects_level (reflects_unaryLevel sub) .multiplicativeExpr rfl rfl
    (fun _ _ _ => by rw [build?]; rfl) reflects_productOperator
  have sum := reflects_level product .additiveExpr rfl rfl
    (fun _ _ _ => by rw [build?]; rfl) reflects_sumOperator
  have order := reflects_level sum .relationalExpr rfl rfl
    (fun _ _ _ => by rw [build?]; rfl) reflects_orderOperator
  have equality := reflects_level order .equalityExpr rfl rfl
    (fun _ _ _ => by rw [build?]; rfl) reflects_equalityOperator
  have both := reflects_level equality .andExpr rfl rfl
    (fun _ _ _ => by rw [build?]; rfl) reflects_andOperator
  exact reflects_level both .orExpr rfl rfl (fun _ _ _ => by rw [build?]; rfl) reflects_orOperator

end

theorem reflects_exprUpTo (limit : Nat) :
    Reflects grammar whole limit .spaced (.rule .expr) (exprUpTo limit) (Builds .expr) := by
  induction limit with
  | zero => exact ⟨fun _ impossible => absurd impossible (Nat.not_lt_zero _),
      fun _ _ _ impossible => absurd impossible (Nat.not_lt_zero _)⟩
  | succ limit ih =>
      apply reflects_builds .expr rfl
      apply (reflects_orLevel ih).mono
      rintro value _ _ ⟨parts, rfl, built⟩ used
      rw [build?, buildFirst?, built]

/-- Whole expressions, whatever their length. -/
theorem reflects_expr :
    Reflects grammar whole bound .spaced (.rule .expr) expr (Builds .expr) where
  refuses text _ refused := (reflects_exprUpTo _).refuses text (Nat.lt_succ_self _) refused
  takes text value rest _ given := (reflects_exprUpTo _).takes text value rest (Nat.lt_succ_self _) given

theorem reflects_endOfInput :
    Reflects grammar whole bound .spaced (.rule .endOfInput) finish (fun _ used _ => used = []) := by
  have body : Reflects grammar whole bound .spaced Rule.endOfInput.body finish _ := reflects_finish
  apply (reflects_rule .endOfInput (by decide) (by decide) body).mono
  rintro _ used trees ⟨parts, ended, _⟩
  exact ended.1

theorem reflects_whole :
    Reflects grammar whole bound .spaced (.seq (.rule .expr) (.rule .endOfInput))
      (do
        let parsed ← expr
        blanks
        finish
        pure parsed)
      (fun value _ parts => ∀ used, ofTree (.node .xpath used parts) = .ok value) := by
  refine reflects_expr.spaced blanks_skips ?_
  rintro parsed _ _ _ ⟨parts, rfl, built⟩
  apply reflects_endOfInput.map
  intro _ _ _ _ used
  rw [List.singleton_append, ofTree, built]

theorem parse?_apply (text : String) :
    parse? text = ((do
      let parsed ← expr
      blanks
      finish
      pure parsed : Reader Expr) (dropBlanks text.toList)).map (·.1) := by
  unfold parse? whole?
  simp only [bind_assoc, pure_bind]
  rw [bind_of_some (blanks_apply text.toList)]

/-- What is read up to the end of a text leaves only blanks. -/
theorem left_of_finish {reader : Reader α} {text rest : List Char} {value : α}
    (given : (do
      let taken ← reader
      blanks
      finish
      pure taken : Reader α) text = some (value, rest)) :
    rest = [] ∧ ∃ left, reader text = some (value, left) ∧ dropBlanks left = [] := by
  cases read : reader text with
  | none =>
      rw [bind_of_none read] at given
      cases given
  | some taken =>
      rw [bind_of_some read, bind_of_some (blanks_apply _)] at given
      cases left : dropBlanks taken.2 with
      | nil =>
          rw [left] at given
          cases given
          exact ⟨rfl, taken.2, rfl, left⟩
      | cons c others =>
          rw [left] at given
          cases given

/-- A text that is read is matched, and its tree is built into what is read. -/
theorem matches_of_parse? {text : String} {value : Expr} (read : parse? text = some value) :
    ∃ tree, grammar.Matches .xpath text.toList tree ∧ ofTree tree = .ok value := by
  rw [parse?_apply, Option.map_eq_some_iff] at read
  rcases read with ⟨⟨taken, rest⟩, given, rfl⟩
  have ended : rest = [] := (left_of_finish given).1
  subst ended
  rcases reflects_whole.takes _ _ _ (Nat.lt_succ_self _) given with ⟨used, trees, _, derives, builds⟩
  have all : grammar.Derives text.toList .spaced Rule.xpath.body text.toList (some (trees, [])) :=
    .seq .start derives
  have matched : grammar.Derives text.toList .spaced (.rule .xpath) text.toList _ :=
    .rule (List.append_nil text.toList).symm all
  exact ⟨.node .xpath text.toList trees, matched, builds text.toList⟩

/-- A text that is refused is not matched. -/
theorem not_matched_of_parse? {text : String} (refused : parse? text = none) :
    grammar.Derives text.toList .spaced (.rule .xpath) text.toList none := by
  rw [parse?_apply, Option.map_eq_none_iff] at refused
  have none : grammar.Derives text.toList .spaced Rule.xpath.body text.toList none :=
    .seqNotSecond .start (reflects_whole.refuses _ (Nat.lt_succ_self _) refused)
  exact .ruleNot none

/-- An expression is read from a text exactly if the grammar matches the whole text.  No tree that the
grammar gives is refused: each is built into the expression that is read. -/
theorem parse?_iff_matches (text : String) :
    ((∃ value, parse? text = some value) ↔ ∃ tree, grammar.Matches .xpath text.toList tree) ∧
    ∀ tree, grammar.Matches .xpath text.toList tree →
      ∃ value, ofTree tree = .ok value ∧ parse? text = some value := by
  have built (tree : ParseTree Rule) (matched : grammar.Matches .xpath text.toList tree) :
      ∃ value, ofTree tree = .ok value ∧ parse? text = some value := by
    cases read : parse? text with
    | none => cases matched.unique (not_matched_of_parse? read)
    | some value =>
        rcases matches_of_parse? read with ⟨other, matchedToo, ok⟩
        cases matched.unique matchedToo
        exact ⟨value, ok, rfl⟩
  refine ⟨⟨?_, ?_⟩, built⟩
  · rintro ⟨value, read⟩
    rcases matches_of_parse? read with ⟨tree, matched, _⟩
    exact ⟨tree, matched⟩
  · rintro ⟨tree, matched⟩
    rcases built tree matched with ⟨value, _, read⟩
    exact ⟨value, read⟩

end NodeQuery.Expr

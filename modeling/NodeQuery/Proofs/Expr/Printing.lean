import NodeQuery.Proofs.Expr.Grammar
import NodeQuery.Proofs.Expr.Levels
import NodeQuery.Proofs.Numeral.Shortest

/-!
# Reading what was written, part by part

The text with all parentheses is read rule by rule as what it was written for.  Behind each part of
that text stands a closing character, a slash or an operator with blanks around it, so every level of
operators below the one at hand stops where the part ends.
-/

namespace NodeQuery.Expr

open Text (Reader)
open Text.Reader

variable {sub : Reader Expr} {text rest : List Char} {value : Expr} {depth limit : Nat}

/-- What is read behind an opening parenthesis up to a closing one is a primary expression. -/
theorem primary_of_parentheses {left : List Char} (reads : Reads sub (dropBlanks text) value left)
    (closes : dropBlanks left = ')' :: rest) : primary sub ('(' :: text) = some (value, rest) := by
  have opened : token "(" ('(' :: text) = some ((), text) := rfl
  have closed : token ")" (')' :: rest) = some ((), rest) := rfl
  rw [primary, orElse_of_none (bind_of_none rfl)]
  apply orElse_of_some
  rw [bind_of_some opened, bind_of_some (blanks_apply _), reads.bind_blanks, closes,
    bind_of_some closed]
  rfl

theorem primary_parenthesised {inner : List Char} (body : Body depth inner value)
    (enough : depth ≤ limit) (rest : List Char) :
    primary (exprUpTo limit) (parenthesised inner ++ rest) = some (value, rest) := by
  have reads := body.reads limit enough _ (.parenthesis rest)
  rw [← dropBlanks_of_leaves (body.solid _)] at reads
  rw [parenthesised, List.cons_append, List.append_assoc, List.singleton_append]
  exact primary_of_parentheses reads (dropBlanks_of_leaves (leaves_cons rfl))

/-- An expression in parentheses is an operand. -/
theorem Operand.parenthesised {inner : List Char} (body : Body depth inner value) :
    Operand depth (parenthesised inner) value where
  begins := ⟨'(', _, rfl, rfl, by decide⟩
  reads _ enough rest follows :=
    path_of_primary (leaves_cons rfl) (primary_parenthesised body enough rest) follows.endsPath

/-- What stands behind a step: another step or a closing character. -/
inductive EndsStep : List Char → Prop
  | closing {rest : List Char} (closes : Closes rest) : EndsStep rest
  | slash (rest : List Char) : EndsStep ('/' :: rest)

theorem EndsStep.endsName (ends : EndsStep rest) : EndsName rest := by
  cases ends with
  | closing closes => exact (Follows.closing closes).endsName
  | slash rest => exact EndsName.of_head rfl rfl rfl

theorem EndsStep.predicate (ends : EndsStep rest) (sub : Reader Expr) :
    predicate sub (dropBlanks rest) = none := by
  cases ends with
  | closing closes => exact (Follows.closing closes).endsPath.predicate sub
  | slash rest => rfl

/-- A test is read as it is written. -/
theorem nodeTest_append {test : NodeTest} (spelled : IsSpelled test) (ends : EndsName rest) :
    nodeTest (test.chars ++ rest) = some (test, rest) := by
  cases test with
  | named name =>
      have given := nodeTest_name spelled ends
      rwa [String.ofList_toList] at given
  | anyNameWithPrefix first =>
      have isName : IsName first.toList := spelled
      have plain : kindTest (first.toList ++ ':' :: '*' :: rest) = none :=
        kindTest_name (.simple isName) (leaves_cons rfl) (leaves_cons rfl)
      have star : token "*" (first.toList ++ ':' :: '*' :: rest) = none :=
        token_of_leaves (isName.leaves rfl) rfl
      have colon : token ":*" (':' :: '*' :: rest) = some ((), rest) := rfl
      change nodeTest ((first.toList ++ [':', '*']) ++ rest) = _
      rw [List.append_assoc, List.cons_append, List.singleton_append, nodeTest, orElse_of_none plain,
        nameTest, orElse_of_none (bind_of_none star)]
      apply orElse_of_some
      rw [bind_of_some (simpleName_append isName (leaves_cons rfl)), bind_of_some colon,
        String.ofList_toList]
      rfl
  | anyName => rfl
  | node => rfl
  | text => rfl
  | comment => rfl

theorem solid_test {test : NodeTest} (spelled : IsSpelled test) (rest : List Char) :
    Leaves isBlank (test.chars ++ rest) := by
  cases test with
  | named name =>
      have named : IsQualifiedName name.toList := spelled
      exact named.solid
  | anyNameWithPrefix first =>
      have isName : IsName first.toList := spelled
      change Leaves isBlank ((first.toList ++ [':', '*']) ++ rest)
      rw [List.append_assoc]
      exact isName.solid
  | anyName => exact leaves_cons rfl
  | node => exact leaves_cons rfl
  | text => exact leaves_cons rfl
  | comment => exact leaves_cons rfl

section
variable {predicates : List Expr}

theorem items_of_predicates (bodies : ∀ predicate ∈ predicates, Body depth predicate.chars predicate)
    (enough : depth ≤ limit) (stops : predicate (exprUpTo limit) (dropBlanks rest) = none) :
    Items (predicate (exprUpTo limit)) (predicatesChars (predicates.map chars) ++ rest) predicates
      rest := by
  induction predicates with
  | nil => exact .done stops
  | cons first others ih =>
      rcases List.forall_mem_cons.mp bodies with ⟨body, otherBodies⟩
      have items := ih otherBodies
      have spelled : predicatesChars ((first :: others).map chars) ++ rest =
          '[' :: (first.chars ++ ']' :: (predicatesChars (others.map chars) ++ rest)) := by
        simp [predicatesChars]
      rw [spelled]
      generalize predicatesChars (others.map chars) ++ rest = behind at items ⊢
      have solid : dropBlanks ('[' :: (first.chars ++ ']' :: behind)) =
          '[' :: (first.chars ++ ']' :: behind) := dropBlanks_of_leaves (leaves_cons rfl)
      refine .more ?_ ?_ items
      · rw [solid]
        exact Reads.of_eq (predicate_of_body (body.solid _)
          (body.reads limit enough _ (.bracket behind)))
      · rw [solid]
        simp only [List.length_cons, List.length_append]
        omega

theorem endsName_predicates (predicates : List (List Char)) (ends : EndsStep rest) :
    EndsName (predicatesChars predicates ++ rest) := by
  cases predicates with
  | nil => exact ends.endsName
  | cons first others => exact EndsName.of_head rfl rfl rfl

end

theorem begins_step (taken : Step) (rest : List Char) : BeginsAxis (taken.chars ++ rest) := by
  rcases taken with ⟨axis, test, predicates⟩
  rw [Step.chars, stepChars]
  simp only [List.append_assoc, List.cons_append]
  exact ⟨axis, _, rfl⟩

/-- The names in the test of a step are names, and its predicates are read as they are written. -/
structure StepBody (depth : Nat) (taken : Step) : Prop where
  spelled : IsSpelled taken.test
  bodies : ∀ predicate ∈ taken.predicates, Body depth predicate.chars predicate

theorem StepBody.reads {taken : Step} (body : StepBody depth taken) (enough : depth ≤ limit)
    (ends : EndsStep rest) :
    Reads (step (exprUpTo limit)) (taken.chars ++ rest) taken rest := by
  have undotted : Leaves (· == '.') (taken.chars ++ rest) := (begins_step taken rest).leaves rfl
  rcases taken with ⟨axis, test, predicates⟩
  have given := nodeTest_append body.spelled
    (endsName_predicates (predicates.map chars) ends)
  have lead := axisAndTest_axis axis (solid_test body.spelled _) given
  have items := items_of_predicates body.bodies enough (ends.predicate (exprUpTo limit))
  have written : Step.chars (.mk axis test predicates) ++ rest =
      axis.name.toList ++ ':' :: ':' ::
        (test.chars ++ (predicatesChars (predicates.map chars) ++ rest)) := by
    simp [Step.chars, stepChars]
  rw [written] at undotted ⊢
  exact step_of_predicates undotted lead items

theorem intercalate_cons (separator first : List Char) (others : List (List Char)) :
    separator.intercalate (first :: others) =
      first ++ others.flatMap fun other => separator ++ other := by
  induction others generalizing first with
  | nil => simp
  | cons second others ih => rw [List.intercalate_cons_cons, ih, List.flatMap_cons]; simp

/-- Behind a step stands the slash before the next one or what closes the path. -/
theorem endsStep_of_closes (others : List (List Char)) (closes : Closes rest) :
    EndsStep (others.flatMap (fun other => ['/'] ++ other) ++ rest) := by
  cases others with
  | nil => exact .closing closes
  | cons second others => exact .slash _

section
variable {taken : List Step} (bodies : ∀ only ∈ taken, StepBody depth only) (enough : depth ≤ limit)
  (closes : Closes rest)
include bodies enough closes

/-- Steps with a slash before each. -/
theorem items_of_steps :
    Items (nextStep (exprUpTo limit))
      ((taken.map Step.chars).flatMap (fun other => ['/'] ++ other) ++ rest)
      (taken.map fun only => [only]) rest := by
  induction taken with
  | nil => exact .done (nextStep_stops (Follows.closing closes).endsPath)
  | cons first others ih =>
      rcases List.forall_mem_cons.mp bodies with ⟨body, otherBodies⟩
      have items := ih otherBodies
      have ends := endsStep_of_closes (others.map Step.chars) closes
      simp only [List.map_cons, List.flatMap_cons, List.append_assoc, List.cons_append, List.nil_append]
        at items ends ⊢
      generalize (others.map Step.chars).flatMap (fun other => '/' :: other) ++ rest = behind
        at items ends ⊢
      have begins := begins_step first behind
      have spelled : dropBlanks ('/' :: (first.chars ++ behind)) =
          '/' :: (first.chars ++ behind) := dropBlanks_of_leaves (leaves_cons rfl)
      refine .more ?_ ?_ items
      · rw [spelled]
        apply nextStep_of_step (separator_slash (begins.leaves rfl))
        rw [dropBlanks_of_leaves begins.solid]
        exact body.reads enough ends
      · rw [spelled]
        simp only [List.length_cons, List.length_append]
        omega

theorem steps_of_bodies (filled : taken ≠ []) :
    Reads (steps (exprUpTo limit)) (pathChars (taken.map Step.chars) ++ rest) taken rest := by
  cases taken with
  | nil => exact absurd rfl filled
  | cons first others =>
      rcases List.forall_mem_cons.mp bodies with ⟨body, otherBodies⟩
      have reads := steps_of_items
        (body.reads enough (endsStep_of_closes (others.map Step.chars) closes))
        (items_of_steps otherBodies enough closes)
      have singles : (others.map fun only => [only]).flatten = others := by
        rw [← List.flatMap_def, List.flatMap_singleton']
      rw [singles] at reads
      rwa [pathChars, List.map_cons, intercalate_cons, List.append_assoc]

end

theorem begins_path {taken : List Step} (filled : taken ≠ []) (rest : List Char) :
    BeginsAxis (pathChars (taken.map Step.chars) ++ rest) := by
  cases taken with
  | nil => exact absurd rfl filled
  | cons first others =>
      rw [pathChars, List.map_cons, intercalate_cons, List.append_assoc]
      exact begins_step first _

section
variable {taken : List Step} (bodies : ∀ only ∈ taken, StepBody depth only)
include bodies

theorem Body.rootPath :
    Body (depth + 1) ('/' :: pathChars (taken.map Step.chars)) (.rootPath taken) := by
  refine Body.of_path ⟨'/', _, rfl, rfl, by decide⟩ ?_
  intro limit enough rest closes
  by_cases filled : taken = []
  · subst filled
    have none : maybe (steps (exprUpTo limit)) rest = some (none, rest) :=
      maybe_of_none (by cases closes <;> rfl)
    exact path_of_slash (closes.leaves ⟨rfl, rfl, rfl⟩) (closes.leaves ⟨rfl, rfl, rfl⟩) none
      (Behind.refl rest)
  · have begins := begins_path filled rest
    rcases steps_of_bodies bodies enough closes filled with ⟨left, given, behind⟩
    exact path_of_slash begins.solid (begins.leaves rfl) (maybe_of_some given) behind

variable (filled : taken ≠ [])
include filled

theorem Body.focusPath (moves : ∀ only, taken = [only] → only.isSelf = false) :
    Body (depth + 1) (pathChars (taken.map Step.chars)) (.focusPath taken) := by
  have alone := begins_path filled []
  rw [List.append_nil] at alone
  apply Body.of_path alone.head
  intro limit enough rest closes
  have begins := begins_path filled rest
  exact path_of_steps (begins.leaves rfl) (begins.primary_none _)
    (steps_of_bodies bodies enough closes filled) moves

theorem Body.exprPath {inner : List Char} (body : Body depth inner value) :
    Body (depth + 1) (parenthesised inner ++ '/' :: pathChars (taken.map Step.chars))
      (.exprPath value taken) := by
  refine Body.of_path ⟨'(', _, rfl, rfl, by decide⟩ ?_
  intro limit enough rest closes
  have begins := begins_path filled rest
  rcases steps_of_bodies bodies enough closes filled with ⟨left, given, behind⟩
  rw [List.append_assoc, List.cons_append]
  generalize pathChars (taken.map Step.chars) ++ rest = stepped at begins given ⊢
  have next : maybe (nextSteps (exprUpTo limit)) (dropBlanks ('/' :: stepped)) =
      some (some taken, left) := by
    rw [dropBlanks_of_leaves (leaves_cons rfl)]
    exact maybe_of_some (nextSteps_of_steps begins.solid (begins.leaves rfl) given)
  have noPredicate : Items (predicate (exprUpTo limit)) ('/' :: stepped) [] ('/' :: stepped) :=
    .done rfl
  exact path_of_filtered (leaves_cons rfl) (primary_parenthesised body enough _) noPredicate next
    behind

end

/-- Predicates behind an expression in parentheses. -/
theorem Body.filter {inner : List Char} {predicates : List Expr} (body : Body depth inner value)
    (filled : predicates ≠ [])
    (bodies : ∀ predicate ∈ predicates, Body depth predicate.chars predicate) :
    Body (depth + 1) (parenthesised inner ++ predicatesChars (predicates.map chars))
      (.filter value predicates) := by
  refine Body.of_path ⟨'(', _, rfl, rfl, by decide⟩ ?_
  intro limit enough rest closes
  have ends := (Follows.closing closes).endsPath
  have items := items_of_predicates bodies enough (ends.predicate (exprUpTo limit))
  have start := primary_parenthesised body enough (predicatesChars (predicates.map chars) ++ rest)
  have unslashed : Leaves (· == '/') (parenthesised inner ++
      (predicatesChars (predicates.map chars) ++ rest)) := leaves_cons rfl
  have reads := path_of_filtered unslashed start items (nextSteps_stops ends) (.inr rfl)
  rw [List.append_assoc]
  cases predicates with
  | nil => exact absurd rfl filled
  | cons first others => exact reads

theorem Body.var {name : String} (named : IsQualifiedName name.toList) :
    Body 1 ('$' :: name.toList) (.var name) := by
  refine Body.of_path ⟨'$', _, rfl, rfl, by decide⟩ ?_
  intro limit _ rest closes
  have ends := (Follows.closing closes).endsName
  have sign : token "$" ('$' :: (name.toList ++ rest)) = some ((), name.toList ++ rest) := rfl
  have given : primary (exprUpTo limit) ('$' :: (name.toList ++ rest)) = some (.var name, rest) := by
    rw [primary]
    apply orElse_of_some
    rw [bind_of_some sign, bind_of_some (name_append named ends.ended ends.unprefixed),
      String.ofList_toList]
    rfl
  exact path_of_primary (leaves_cons rfl) given (Follows.closing closes).endsPath

/-- The quote for a text is one that the text does not contain. -/
theorem quoteFor_spec {text : String} (quotable : IsQuotable text) :
    (quoteFor text = '"' ∨ quoteFor text = '\'') ∧ quoteFor text ∉ text.toList := by
  rw [quoteFor]
  split
  · rename_i double
    exact ⟨.inr rfl, quotable.resolve_left fun free => free double⟩
  · rename_i free
    exact ⟨.inl rfl, free⟩

theorem Body.string {text : String} (quotable : IsQuotable text) :
    Body 1 (Expr.string text).chars (.string text) := by
  rcases quoteFor_spec quotable with ⟨known, unquoted⟩
  rw [chars]
  exact (Operand.string known unquoted).body

theorem Body.number {decimal : Numeral.Decimal} (finite : decimal.toFloat.isFinite = true) :
    Body 1 (Numeral.chars decimal.toFloat) (.number decimal.toFloat) := by
  rcases Numeral.exists_printed (Numeral.unsigned_toFloat decimal) finite with
    ⟨printed, written, same⟩
  have operand := Operand.numeral (isNumeral_toChars printed)
  rw [same, ← written] at operand
  exact operand.body

theorem Body.call {function : String} {arguments : List Expr}
    (named : IsQualifiedName function.toList) (callable : function ∉ testWords)
    (bodies : ∀ argument ∈ arguments, Body depth argument.chars argument) :
    Body (depth + 1)
      (function.toList ++ parenthesised ([',', ' '].intercalate (arguments.map chars)))
      (.call function arguments) := by
  cases arguments with
  | nil =>
      have operand := Operand.callNone named callable
      exact operand.body.mono (by omega)
  | cons first others =>
      rcases List.forall_mem_cons.mp bodies with ⟨body, otherBodies⟩
      let pairs : List (List Char × Expr) := others.map fun argument => (argument.chars, argument)
      have given : ∀ argument ∈ pairs, Body depth argument.1 argument.2 := by
        intro pair member
        rcases List.mem_map.mp member with ⟨argument, listed, rfl⟩
        exact otherBodies argument listed
      have texts : pairs.map (·.1) = others.map chars := by simp [pairs]
      have values : pairs.map (·.2) = others := by
        rw [List.map_map]
        exact List.map_id others
      have operand := Operand.call named callable body given
      rw [texts, values, callChars] at operand
      rw [List.map_cons, intercalate_cons]
      exact operand.body

end NodeQuery.Expr

import Mathlib
import NodeQuery.Proofs.Expr.Reading

/-!
# Rules of the grammar

What the rules for names, steps, calls and operators read where a text is written the way each of them
expects it.  A name ends before any character that can neither go on with it nor turn it into something
else: a colon would, and so would a parenthesis.
-/

namespace NodeQuery.Expr

open Text (Reader)
open Text.Reader

/-!
## What can follow

Each reader is told in front of what can follow it: a name in front of what ends names, a path in front of
what ends paths, an operand in front of an operator or of what closes.
-/

/-- The characters that close what stands in brackets or end an argument. -/
inductive Closes : List Char → Prop
  | nil : Closes []
  | bracket (rest : List Char) : Closes (']' :: rest)
  | parenthesis (rest : List Char) : Closes (')' :: rest)
  | comma (rest : List Char) : Closes (',' :: rest)

/-- A blank, or a character with which a name or a path goes on even behind a blank. -/
def goesOn (c : Char) : Bool := isBlank c || (c == '(' || c == ':') || (c == '[' || c == '/')

/-- What can follow an operand: a closing character, or an operator behind a blank. -/
inductive Follows : List Char → Prop
  | closing {rest : List Char} (closes : Closes rest) : Follows rest
  | operator (c : Char) (rest : List Char) (plain : goesOn c = false) : Follows (' ' :: c :: rest)

/-- A name ends here, and it is no more than a name. -/
structure EndsName (rest : List Char) : Prop where
  ended : Leaves isNameChar rest
  unprefixed : Leaves (· == ':') rest
  bare : Leaves (fun c => c == '(' || c == ':') (dropBlanks rest)

/-- A path ends here: neither a predicate nor another step follows. -/
def EndsPath (rest : List Char) : Prop := Leaves (fun c => c == '[' || c == '/') (dropBlanks rest)

theorem EndsName.of_head {c : Char} {rest : List Char} (ended : isNameChar c = false)
    (bare : (c == '(' || c == ':') = false) (solid : isBlank c = false) : EndsName (c :: rest) where
  ended := leaves_cons ended
  unprefixed := leaves_cons (Bool.or_eq_false_iff.mp bare).2
  bare := by
    rw [dropBlanks_of_leaves (leaves_cons solid)]
    exact leaves_cons bare

theorem Closes.leaves {rest : List Char} (closes : Closes rest) {class_ : Char → Bool}
    (outside : class_ ']' = false ∧ class_ ')' = false ∧ class_ ',' = false) : Leaves class_ rest := by
  cases closes with
  | nil => exact leaves_nil class_
  | bracket rest => exact leaves_cons outside.1
  | parenthesis rest => exact leaves_cons outside.2.1
  | comma rest => exact leaves_cons outside.2.2

theorem Closes.dropBlanks_eq {rest : List Char} (closes : Closes rest) : dropBlanks rest = rest :=
  dropBlanks_of_leaves (closes.leaves ⟨rfl, rfl, rfl⟩)

theorem dropBlanks_of_operator {c : Char} {rest : List Char} (plain : goesOn c = false) :
    dropBlanks (' ' :: c :: rest) = c :: rest := by
  simp only [goesOn, Bool.or_eq_false_iff] at plain
  exact dropBlanks_of_leaves (leaves_cons plain.1.1)

theorem Follows.endsName {rest : List Char} (follows : Follows rest) : EndsName rest := by
  cases follows with
  | closing closes =>
      refine ⟨closes.leaves ⟨rfl, rfl, rfl⟩, closes.leaves ⟨rfl, rfl, rfl⟩, ?_⟩
      rw [closes.dropBlanks_eq]
      exact closes.leaves ⟨rfl, rfl, rfl⟩
  | operator c rest plain =>
      refine ⟨leaves_cons rfl, leaves_cons rfl, ?_⟩
      rw [dropBlanks_of_operator plain]
      rw [goesOn, Bool.or_eq_false_iff, Bool.or_eq_false_iff] at plain
      exact leaves_cons plain.1.2

theorem Follows.endsPath {rest : List Char} (follows : Follows rest) : EndsPath rest := by
  cases follows with
  | closing closes =>
      rw [EndsPath, closes.dropBlanks_eq]
      exact closes.leaves ⟨rfl, rfl, rfl⟩
  | operator c rest plain =>
      rw [EndsPath, dropBlanks_of_operator plain]
      rw [goesOn, Bool.or_eq_false_iff] at plain
      exact leaves_cons plain.2

/-- A token is refused by a text with another first character. -/
theorem token_of_leaves {c : Char} {others text : List Char} (leaves : Leaves (· == c) text)
    {expected : String} (spelled : expected.toList = c :: others) : token expected text = none := by
  cases text with
  | nil => rw [token, spelled]; rfl
  | cons first text =>
      have apart : (c == first) = false := by
        have different := leaves first rfl
        rw [beq_eq_false_iff_ne] at different ⊢
        exact different.symm
      rw [token, spelled, List.isPrefixOf_cons_cons, apart]
      rfl

/-- A token of two characters is refused by a text with another second character. -/
theorem token_of_second {c d : Char} {text : List Char} (leaves : Leaves (· == d) text)
    {expected : String} (spelled : expected.toList = [c, d]) : token expected (c :: text) = none := by
  cases text with
  | nil =>
      rw [token, spelled, List.isPrefixOf_cons_cons]
      simp
  | cons second text =>
      have apart : (d == second) = false := by
        have different := leaves second rfl
        rw [beq_eq_false_iff_ne] at different ⊢
        exact different.symm
      rw [token, spelled, List.isPrefixOf_cons_cons, List.isPrefixOf_cons_cons, apart]
      simp

theorem EndsPath.predicate {rest : List Char} (ends : EndsPath rest) (sub : Reader Expr) :
    predicate sub (dropBlanks rest) = none := by
  apply bind_of_none
  apply token_of_leaves _ rfl
  intro c head
  exact (Bool.or_eq_false_iff.mp (ends c head)).1

theorem EndsPath.separator {rest : List Char} (ends : EndsPath rest) :
    separator (dropBlanks rest) = none := by
  have unslashed : Leaves (· == '/') (dropBlanks rest) :=
    fun c head => (Bool.or_eq_false_iff.mp (ends c head)).2
  apply (orElse_of_none _).trans
  · exact bind_of_none (token_of_leaves unslashed rfl)
  · exact bind_of_none (token_of_leaves unslashed rfl)

/-- The characters of a name without a colon. -/
structure IsName (chars : List Char) : Prop where
  head : ∃ first others, chars = first :: others ∧ isNameStart first = true
  all : ∀ c ∈ chars, isNameChar c = true

instance (chars : List Char) : Decidable (IsName chars) :=
  decidable_of_iff (chars.head?.any isNameStart = true ∧ chars.all isNameChar = true) <| by
    rw [List.all_eq_true]
    constructor
    · rintro ⟨start, all⟩
      cases chars with
      | nil => cases start
      | cons first others => exact ⟨⟨first, others, rfl, start⟩, all⟩
    · rintro ⟨⟨first, others, rfl, start⟩, all⟩
      exact ⟨start, all⟩

/-- The characters of a name that may have a colon inside: a name, or two with a colon between
them. -/
inductive IsQualifiedName : List Char → Prop
  | simple {chars : List Char} (isName : IsName chars) : IsQualifiedName chars
  | prefixed {space chars : List Char} (first : IsName space) (second : IsName chars) :
      IsQualifiedName (space ++ ':' :: chars)

section
variable {chars rest : List Char}

theorem run_name (isName : IsName chars) (ended : Leaves isNameChar rest) :
    run isNameChar (chars ++ rest) = some (chars, rest) := run_append isName.all ended

theorem simpleName_append (isName : IsName chars) (ended : Leaves isNameChar rest) :
    simpleName (chars ++ rest) = some (chars, rest) := by
  rcases isName.head with ⟨first, others, spelled, start⟩
  have holds : chars.head?.any isNameStart = true := by
    rw [spelled, List.head?_cons, Option.any_some, start]
  rw [simpleName, bind_of_some (run_name isName ended), bind_apply, guard_apply, if_pos holds]
  rfl

theorem name_append (named : IsQualifiedName chars) (ended : Leaves isNameChar rest)
    (unprefixed : Leaves (· == ':') rest) :
    name (chars ++ rest) = some (String.ofList chars, rest) := by
  cases named with
  | simple isName =>
      have alone : maybe (do token ":"; simpleName) rest = some (none, rest) :=
        maybe_of_none (bind_of_none (token_of_leaves unprefixed rfl))
      rw [name, bind_of_some (simpleName_append isName ended), bind_of_some alone]
      rfl
  | @prefixed space chars first second =>
      have colon : token ":" (':' :: (chars ++ rest)) = some ((), chars ++ rest) := rfl
      have behind : maybe (do token ":"; simpleName) (':' :: (chars ++ rest)) =
          some (some chars, rest) := by
        apply maybe_of_some
        rw [bind_of_some colon, simpleName_append second ended]
      rw [name, List.append_assoc, List.cons_append,
        bind_of_some (simpleName_append first (leaves_cons rfl)), bind_of_some behind]
      rfl

theorem keyword_append (isName : IsName chars) (ended : Leaves isNameChar rest) (word : String) :
    keyword word (chars ++ rest) = if chars = word.toList then some ((), rest) else none := by
  rw [keyword, bind_of_some (run_name isName ended), guard_apply]
  by_cases same : chars = word.toList
  · rw [if_pos same, if_pos (beq_iff_eq.mpr same)]
  · rw [if_neg same, if_neg (fun found => same (beq_iff_eq.mp found))]

theorem wordTest_append (isName : IsName chars) (ended : Leaves isNameChar rest)
    (unopened : Leaves (· == '(') (dropBlanks rest)) (word : String) (meaning : NodeTest) :
    wordTest word meaning (chars ++ rest) = none := by
  have opened : token "(" (dropBlanks rest) = none := token_of_leaves unopened rfl
  rw [wordTest, bind_apply, keyword_append isName ended]
  split
  · rw [Option.bind_some, bind_of_some (blanks_apply rest), bind_of_none opened]
  · rfl

theorem IsQualifiedName.head (named : IsQualifiedName chars) :
    ∃ first others, chars = first :: others ∧ isNameStart first = true := by
  cases named with
  | simple isName => exact isName.head
  | @prefixed space chars before behind =>
      rcases before.head with ⟨first, others, spelled, start⟩
      exact ⟨first, others ++ ':' :: chars, by rw [spelled, List.cons_append], start⟩

/-- A name does not begin with a character that names cannot start with. -/
theorem IsQualifiedName.leaves (named : IsQualifiedName chars) {c : Char}
    (outside : isNameStart c = false) : Leaves (· == c) (chars ++ rest) := by
  rcases named.head with ⟨first, others, spelled, start⟩
  rw [spelled]
  apply leaves_cons
  rw [beq_eq_false_iff_ne]
  intro same
  rw [same, outside] at start
  cases start

theorem IsName.leaves (isName : IsName chars) {c : Char} (outside : isNameStart c = false) :
    Leaves (· == c) (chars ++ rest) :=
  IsQualifiedName.leaves (.simple isName) outside

theorem IsQualifiedName.solid (named : IsQualifiedName chars) : Leaves isBlank (chars ++ rest) := by
  intro c head
  have apart {other : Char} (outside : isNameStart other = false) : (c == other) = false :=
    named.leaves outside c head
  rw [isBlank, apart rfl, apart rfl, apart rfl, apart rfl]
  rfl

theorem IsName.solid (isName : IsName chars) : Leaves isBlank (chars ++ rest) :=
  IsQualifiedName.solid (.simple isName)

theorem IsQualifiedName.dropBlanks_eq (named : IsQualifiedName chars) :
    dropBlanks (chars ++ rest) = chars ++ rest := dropBlanks_of_leaves named.solid

theorem IsName.dropBlanks_eq (isName : IsName chars) : dropBlanks (chars ++ rest) = chars ++ rest :=
  IsQualifiedName.dropBlanks_eq (.simple isName)

/-- Digits do not start names. -/
theorem isNameStart_of_isDigit {c : Char} (digit : c.isDigit = true) : isNameStart c = false := by
  simp only [Char.isDigit, Bool.and_eq_true, decide_eq_true_eq, UInt32.le_iff_toNat_le] at digit
  simp only [isNameStart, Char.isAlpha, Char.isUpper, Char.isLower, Bool.or_eq_false_iff,
    Bool.and_eq_false_iff, decide_eq_false_iff_not, beq_eq_false_iff_ne, UInt32.le_iff_toNat_le,
    ge_iff_le, Char.toNat]
  change 48 ≤ c.val.toNat ∧ c.val.toNat ≤ 57 at digit
  change ((¬ (65 ≤ c.val.toNat ∧ c.val.toNat ≤ 90) ∧
    (¬ 97 ≤ c.val.toNat ∨ ¬ c.val.toNat ≤ 122)) ∧ c ≠ '_') ∧ ¬ 128 ≤ c.val.toNat
  have underscore : c ≠ '_' := by
    rintro rfl
    exact absurd digit (by decide)
  refine ⟨⟨?_, underscore⟩, ?_⟩ <;> omega

theorem IsQualifiedName.leaves_isDigit (named : IsQualifiedName chars) :
    Leaves Char.isDigit (chars ++ rest) := by
  rcases named.head with ⟨first, others, spelled, start⟩
  rw [spelled]
  apply leaves_cons
  rw [Bool.eq_false_iff]
  intro digit
  rw [isNameStart_of_isDigit digit] at start
  cases start

theorem kindTest_name (named : IsQualifiedName chars) (ended : Leaves isNameChar rest)
    (unopened : Leaves (· == '(') (dropBlanks rest)) : kindTest (chars ++ rest) = none := by
  have words {chars rest : List Char} (isName : IsName chars) (ended : Leaves isNameChar rest)
      (unopened : Leaves (· == '(') (dropBlanks rest)) : kindTest (chars ++ rest) = none := by
    rw [kindTest, orElse_of_none (wordTest_append isName ended unopened "node" .node),
      orElse_of_none (wordTest_append isName ended unopened "text" .text),
      wordTest_append isName ended unopened]
  cases named with
  | simple isName => exact words isName ended unopened
  | prefixed first second =>
      rw [List.append_assoc, List.cons_append]
      exact words first (leaves_cons rfl) (leaves_cons rfl)

/-- A name where a node test is expected is a test for that name, whatever the name is. -/
theorem nodeTest_name (named : IsQualifiedName chars) (ends : EndsName rest) :
    nodeTest (chars ++ rest) = some (.named (String.ofList chars), rest) := by
  have unopened : Leaves (· == '(') (dropBlanks rest) :=
    fun c head => (Bool.or_eq_false_iff.mp (ends.bare c head)).1
  have star : token "*" (chars ++ rest) = none := token_of_leaves (named.leaves rfl) rfl
  have anyPrefixed : (do
      let first ← simpleName
      token ":*"
      pure (.anyNameWithPrefix (String.ofList first)) : Reader NodeTest) (chars ++ rest) = none := by
    cases named with
    | simple isName =>
        rw [bind_of_some (simpleName_append isName ends.ended),
          bind_of_none (token_of_leaves ends.unprefixed rfl)]
    | @prefixed space chars first second =>
        have starless : token ":*" (':' :: (chars ++ rest)) = none :=
          token_of_second (second.leaves rfl) rfl
        rw [List.append_assoc, List.cons_append,
          bind_of_some (simpleName_append first (leaves_cons rfl)), bind_of_none starless]
  rw [nodeTest, orElse_of_none (kindTest_name named ends.ended unopened), nameTest,
    orElse_of_none (bind_of_none star), orElse_of_none anyPrefixed,
    bind_of_some (name_append named ends.ended ends.unprefixed)]
  rfl

/-- The rule for a step that names its axis. -/
def namedAxis : Reader (Axis × NodeTest) := do
  let axis ← axisName
  blanks
  token "::"
  blanks
  let test ← nodeTest
  pure (axis, test)

/-- Where no two colons stand behind a name, it is not taken for that of an axis. -/
theorem namedAxis_of_name (isName : IsName chars) (ended : Leaves isNameChar rest)
    (colons : token "::" (dropBlanks rest) = none) : namedAxis (chars ++ rest) = none := by
  rw [namedAxis, axisName, bind_assoc, bind_of_some (run_name isName ended)]
  cases Axis.ofName? (String.ofList chars) with
  | none => rfl
  | some axis => rw [pure_bind, bind_of_some (blanks_apply rest), bind_of_none colons]

/-- A name behind an at sign is the name of an attribute. -/
theorem axisAndTest_attribute (isName : IsName chars) (ends : EndsName rest) :
    axisAndTest ('@' :: (chars ++ rest)) = some ((.attribute, .named (String.ofList chars)), rest) := by
  have axis : namedAxis ('@' :: (chars ++ rest)) = none := rfl
  refine (orElse_of_none axis).trans (orElse_of_some ?_)
  have sign : token "@" ('@' :: (chars ++ rest)) = some ((), chars ++ rest) := token_append "@" _
  rw [bind_of_some sign, bind_of_some (blanks_apply _), isName.dropBlanks_eq,
    bind_of_some (nodeTest_name (.simple isName) ends)]
  rfl

/-- A name alone is a test along the child axis, even if it is the name of an axis. -/
theorem axisAndTest_name (named : IsQualifiedName chars) (ends : EndsName rest) :
    axisAndTest (chars ++ rest) = some ((.child, .named (String.ofList chars)), rest) := by
  have sign : token "@" (chars ++ rest) = none := token_of_leaves (named.leaves rfl) rfl
  have axis : namedAxis (chars ++ rest) = none := by
    -- Behind the characters that could be the name of an axis no two colons stand.
    cases named with
    | simple isName =>
        exact namedAxis_of_name isName ends.ended (token_of_leaves
          (fun c head => (Bool.or_eq_false_iff.mp (ends.bare c head)).2) rfl)
    | @prefixed space chars before isName =>
        rw [List.append_assoc, List.cons_append]
        apply namedAxis_of_name before (leaves_cons rfl)
        rw [dropBlanks_of_leaves (leaves_cons rfl)]
        exact token_of_second (isName.leaves rfl) rfl
  refine (orElse_of_none axis).trans ((orElse_of_none (bind_of_none sign)).trans ?_)
  rw [bind_of_some (nodeTest_name named ends)]
  rfl

end

theorem isName_axis (axis : Axis) : IsName axis.name.toList := by
  cases axis <;> decide

/-- An axis by its name, with a test behind two colons. -/
theorem axisAndTest_axis (axis : Axis) {text rest : List Char} {test : NodeTest}
    (solid : Leaves isBlank text) (given : nodeTest text = some (test, rest)) :
    axisAndTest (axis.name.toList ++ ':' :: ':' :: text) = some ((axis, test), rest) := by
  have named : axisName (axis.name.toList ++ ':' :: ':' :: text) = some (axis, ':' :: ':' :: text) := by
    cases axis <;> rfl
  have colons : token "::" (':' :: ':' :: text) = some ((), text) := rfl
  rw [axisAndTest]
  apply orElse_of_some
  rw [bind_of_some named, bind_of_some (blanks_apply _), dropBlanks_of_leaves (leaves_cons rfl),
    bind_of_some colons, bind_of_some (blanks_apply _), dropBlanks_of_leaves solid,
    bind_of_some given]
  rfl

/-- A text that begins with the name of an axis and the two colons behind it. -/
def BeginsAxis (text : List Char) : Prop :=
  ∃ (axis : Axis) (behind : List Char), text = axis.name.toList ++ ':' :: ':' :: behind

section
variable {text : List Char} (begins : BeginsAxis text)
include begins

theorem BeginsAxis.solid : Leaves isBlank text := by
  rcases begins with ⟨axis, behind, rfl⟩
  exact (isName_axis axis).solid

theorem BeginsAxis.leaves {c : Char} (outside : isNameStart c = false) : Leaves (· == c) text := by
  rcases begins with ⟨axis, behind, rfl⟩
  exact (isName_axis axis).leaves outside

theorem BeginsAxis.head : ∃ c others, text = c :: others ∧ isBlank c = false ∧ c ≠ '-' := by
  rcases begins with ⟨axis, behind, rfl⟩
  cases axis <;> exact ⟨_, _, rfl, rfl, by decide⟩

/-- The name of an axis may be a name of a function, but no parenthesis stands behind it. -/
theorem BeginsAxis.primary_none (sub : Reader Expr) : primary sub text = none := by
  rcases begins with ⟨axis, behind, rfl⟩
  cases axis <;> rfl

end

section
variable {sub : Reader Expr} {text middle rest : List Char}

/-- What is read behind an opening bracket up to a closing one is a predicate. -/
theorem predicate_of_brackets {left : List Char} {value : Expr}
    (reads : Reads sub (dropBlanks text) value left) (closes : dropBlanks left = ']' :: rest) :
    predicate sub ('[' :: text) = some (value, rest) := by
  have opened : token "[" ('[' :: text) = some ((), text) := rfl
  have closed : token "]" (']' :: rest) = some ((), rest) := rfl
  rw [predicate, bind_of_some opened, bind_of_some (blanks_apply _), reads.bind_blanks, closes,
    bind_of_some closed]
  rfl

/-- A predicate, whose body ends at the closing bracket. -/
theorem predicate_of_body {body : List Char} {value : Expr} (solid : Leaves isBlank body)
    (reads : Reads sub body value (']' :: rest)) :
    predicate sub ('[' :: body) = some (value, rest) := by
  rw [← dropBlanks_of_leaves solid] at reads
  exact predicate_of_brackets reads (dropBlanks_of_leaves (leaves_cons rfl))

theorem step_of_predicates {axis : Axis} {test : NodeTest} {predicates : List Expr}
    (undotted : Leaves (· == '.') text) (given : axisAndTest text = some ((axis, test), middle))
    (items : Items (predicate sub) middle predicates rest) :
    Reads (step sub) text (.mk axis test predicates) rest := by
  rcases spaced_of_items items with ⟨left, taken, behind⟩
  have dots : dotStep text = none := by
    rw [dotStep, orElse_of_none (bind_of_none (token_of_leaves undotted rfl)),
      bind_of_none (token_of_leaves undotted rfl)]
  refine ⟨left, ?_, behind⟩
  rw [step, orElse_of_none dots, bind_of_some given]
  dsimp only
  rw [bind_of_some (blanks_apply _), bind_of_some taken]
  rfl

theorem nextStep_of_step {between : List Step} {next : Step}
    (slashes : separator text = some (between, middle))
    (reads : Reads (step sub) (dropBlanks middle) next rest) :
    Reads (nextStep sub) text (between ++ [next]) rest := by
  rcases reads with ⟨left, taken, behind⟩
  refine ⟨left, ?_, behind⟩
  rw [nextStep, bind_of_some slashes, bind_of_some (blanks_apply _), bind_of_some taken]
  rfl

/-- One slash puts no step between two others. -/
theorem separator_slash (single : Leaves (· == '/') text) :
    separator ('/' :: text) = some ([], text) := by
  have slash : token "/" ('/' :: text) = some ((), text) := rfl
  rw [separator, orElse_of_none (bind_of_none (token_of_second single rfl)), bind_of_some slash]
  rfl

theorem steps_of_items {first : Step} {others : List (List Step)}
    (reads : Reads (step sub) text first middle) (items : Items (nextStep sub) middle others rest) :
    Reads (steps sub) text (first :: others.flatten) rest := by
  rcases spaced_of_items items with ⟨left, taken, behind⟩
  refine ⟨left, ?_, behind⟩
  rw [steps, reads.bind_blanks, bind_of_some taken]
  rfl

theorem nextStep_stops (ends : EndsPath rest) : nextStep sub (dropBlanks rest) = none :=
  bind_of_none ends.separator

/-- A step on its own. -/
theorem steps_of_step {only : Step} (reads : Reads (step sub) text only rest)
    (ends : EndsPath rest) : Reads (steps sub) text [only] rest :=
  steps_of_items reads (.done (nextStep_stops ends))

theorem rootedPath_of_leaves (unslashed : Leaves (· == '/') text) : rootedPath sub text = none := by
  rw [rootedPath, orElse_of_none (bind_of_none (token_of_leaves unslashed rfl)),
    bind_of_none (token_of_leaves unslashed rfl)]

/-- A path from the root through two slashes. -/
theorem path_of_slashes {taken : List Step} (solid : Leaves isBlank text)
    (reads : Reads (steps sub) text taken rest) :
    Reads (path sub) ('/' :: '/' :: text) (.rootPath (.descendantOrSelf :: taken)) rest := by
  rcases reads with ⟨left, given, behind⟩
  have slashes : token "//" ('/' :: '/' :: text) = some ((), text) := rfl
  refine ⟨left, ?_, behind⟩
  rw [path]
  apply orElse_of_some
  rw [rootedPath]
  apply orElse_of_some
  rw [bind_of_some slashes, bind_of_some (blanks_apply _), dropBlanks_of_leaves solid,
    bind_of_some given]
  rfl

/-- A path from the node in focus, where nothing else begins. -/
theorem path_of_steps {taken : List Step} (unslashed : Leaves (· == '/') text)
    (steppy : primary sub text = none) (reads : Reads (steps sub) text taken rest)
    (moves : ∀ only, taken = [only] → only.isSelf = false) :
    Reads (path sub) text (.focusPath taken) rest := by
  rcases reads with ⟨left, given, behind⟩
  have unfiltered : filterPath sub text = none := by
    rw [filterPath, bind_of_none]
    rw [filtered, bind_of_none steppy]
  refine ⟨left, ?_, behind⟩
  rw [path, orElse_of_none (rootedPath_of_leaves unslashed), orElse_of_none unfiltered, relativePath,
    bind_of_some given]
  match taken with
  | [] => rfl
  | [only] =>
      dsimp only
      rw [if_neg (by rw [moves only rfl]; exact Bool.false_ne_true)]
      rfl
  | _ :: _ :: _ => rfl

/-- A path from the root through one slash. -/
theorem path_of_slash {found : Option (List Step)} {left : List Char} (solid : Leaves isBlank text)
    (single : Leaves (· == '/') text) (given : maybe (steps sub) text = some (found, left))
    (behind : Behind left rest) :
    Reads (path sub) ('/' :: text) (.rootPath (found.getD [])) rest := by
  have slash : token "/" ('/' :: text) = some ((), text) := rfl
  refine ⟨left, ?_, behind⟩
  rw [path]
  apply orElse_of_some
  rw [rootedPath, orElse_of_none (bind_of_none (token_of_second single rfl)), bind_of_some slash,
    bind_of_some (blanks_apply _), dropBlanks_of_leaves solid, bind_of_some given]
  rfl

def withPredicates (inner : Expr) : List Expr → Expr
  | [] => inner
  | first :: others => .filter inner (first :: others)

def withSteps (start : Expr) : Option (List Step) → Expr
  | none => start
  | some taken => .exprPath start taken

/-- A primary expression, its predicates and the steps from it. -/
theorem path_of_filtered {inner : Expr} {predicates : List Expr} {found : Option (List Step)}
    {between left : List Char} (unslashed : Leaves (· == '/') text)
    (given : primary sub text = some (inner, middle))
    (items : Items (predicate sub) middle predicates between)
    (next : maybe (nextSteps sub) (dropBlanks between) = some (found, left))
    (behind : Behind left rest) :
    Reads (path sub) text (withSteps (withPredicates inner predicates) found) rest := by
  rcases spaced_of_items items with ⟨last, taken, lastBehind⟩
  have start : filtered sub text = some (withPredicates inner predicates, last) := by
    rw [filtered, bind_of_some given, bind_of_some (blanks_apply _), bind_of_some taken]
    cases predicates <;> rfl
  refine ⟨left, ?_, behind⟩
  rw [path, orElse_of_none (rootedPath_of_leaves unslashed)]
  apply orElse_of_some
  rw [filterPath, bind_of_some start, bind_of_some (blanks_apply _), lastBehind.dropBlanks_eq,
    bind_of_some next]
  cases found <;> rfl

/-- Steps behind a slash go on from where they start. -/
theorem nextSteps_of_steps {taken : List Step} (solid : Leaves isBlank text)
    (single : Leaves (· == '/') text) (given : steps sub text = some (taken, rest)) :
    nextSteps sub ('/' :: text) = some (taken, rest) := by
  rw [nextSteps, bind_of_some (separator_slash single), bind_of_some (blanks_apply _),
    dropBlanks_of_leaves solid, bind_of_some given]
  rfl

/-- Where a path ends no steps follow. -/
theorem nextSteps_stops (ends : EndsPath rest) :
    maybe (nextSteps sub) (dropBlanks rest) = some (none, dropBlanks rest) :=
  maybe_of_none (bind_of_none ends.separator)

/-- A primary expression that no predicate and no step follows. -/
theorem path_of_primary {value : Expr} (unslashed : Leaves (· == '/') text)
    (given : primary sub text = some (value, rest)) (ends : EndsPath rest) :
    Reads (path sub) text value rest :=
  path_of_filtered unslashed given (.done (ends.predicate sub)) (nextSteps_stops ends) (.inr rfl)

end

section
variable (sub : Reader Expr) {rest : List Char}

/-- A text between quotes that it does not contain. -/
theorem primary_quoted {quote : Char} (known : quote = '"' ∨ quote = '\'') {content : List Char}
    (unquoted : quote ∉ content) :
    primary sub (quote :: (content ++ quote :: rest)) = some (.string (String.ofList content), rest) := by
  have inside : run (· != quote) (content ++ quote :: rest) = some (content, quote :: rest) := by
    apply run_append
    · intro c member
      rw [bne_iff_ne]
      intro same
      exact unquoted (same ▸ member)
    · exact leaves_cons (bne_self_eq_false quote)
  have between : quotedBy quote (quote :: (content ++ quote :: rest)) =
      some (String.ofList content, rest) := by
    have sign (text : List Char) : token quote.toString (quote :: text) = some ((), text) := by
      have front := token_append quote.toString text
      rwa [Char.toString_eq_singleton, String.toList_singleton] at front
    rw [quotedBy, bind_of_some (sign _), bind_of_some inside, bind_of_some (sign _)]
    rfl
  have given : quoted (quote :: (content ++ quote :: rest)) =
      some (String.ofList content, rest) := by
    rcases known with double | single
    · subst double
      exact orElse_of_some between
    · subst single
      exact (orElse_of_none rfl).trans between
  rw [primary]
  rcases known with double | single
  · subst double
    rw [orElse_of_none rfl, orElse_of_none rfl]
    apply orElse_of_some
    rw [bind_of_some given]
    rfl
  · subst single
    rw [orElse_of_none rfl, orElse_of_none rfl]
    apply orElse_of_some
    rw [bind_of_some given]
    rfl

/-- The text of a number without a sign: digits, or digits on both sides of a point. -/
inductive IsNumeral : List Char → Numeral.Decimal → Prop
  | whole {digits : List Char} (filled : digits ≠ []) (all : ∀ c ∈ digits, c.isDigit = true) :
      IsNumeral digits ⟨Numeral.Decimal.accumulate 0 digits, 0⟩
  | fraction {whole fraction : List Char} (filled : whole ≠ []) (all : ∀ c ∈ whole, c.isDigit = true)
      (allBehind : ∀ c ∈ fraction, c.isDigit = true) :
      IsNumeral (whole ++ '.' :: fraction)
        ⟨Numeral.Decimal.accumulate (Numeral.Decimal.accumulate 0 whole) fraction, fraction.length⟩

theorem IsNumeral.ofChars?_eq {chars : List Char} {decimal : Numeral.Decimal}
    (isNumeral : IsNumeral chars decimal) : Numeral.Decimal.ofChars? chars = some decimal := by
  cases isNumeral with
  | @whole digits filled all =>
      have split := takeWhile_append_of_leaves all (leaves_nil Char.isDigit)
      rw [List.append_nil] at split
      have inside : chars.isEmpty = false := by
        cases chars with
        | nil => exact absurd rfl filled
        | cons c others => rfl
      simp only [Numeral.Decimal.ofChars?, split.1, split.2, inside, Bool.false_eq_true, if_false]
  | @fraction whole fraction filled all allBehind =>
      have split : ((whole ++ '.' :: fraction).takeWhile Char.isDigit = whole ∧ _) :=
        takeWhile_append_of_leaves all (leaves_cons rfl)
      have inside : whole.isEmpty = false := by
        cases whole with
        | nil => exact absurd rfl filled
        | cons c others => rfl
      have behind : fraction.all Char.isDigit = true := List.all_eq_true.mpr allBehind
      simp only [Numeral.Decimal.ofChars?, split.1, split.2, inside, behind, Bool.false_and,
        Bool.not_false, Bool.and_self, if_true]

theorem IsNumeral.numeralText_append {chars : List Char} {decimal : Numeral.Decimal}
    (isNumeral : IsNumeral chars decimal) (ended : Leaves Char.isDigit rest)
    (unpointed : Leaves (· == '.') rest) : numeralText (chars ++ rest) = some (chars, rest) := by
  cases isNumeral with
  | @whole digits filled all =>
      have alone : maybe (do token "."; run Char.isDigit) rest = some (none, rest) :=
        maybe_of_none (bind_of_none (token_of_leaves unpointed rfl))
      rw [numeralText]
      apply orElse_of_some
      rw [bind_of_some (run1_append filled all ended), bind_of_some alone]
      rfl
  | @fraction whole fraction filled all allBehind =>
      have point : token "." ('.' :: (fraction ++ rest)) = some ((), fraction ++ rest) := rfl
      have digits : maybe (do token "."; run Char.isDigit) ('.' :: (fraction ++ rest)) =
          some (some fraction, rest) := by
        apply maybe_of_some
        rw [bind_of_some point, run_append allBehind ended]
      rw [numeralText, List.append_assoc, List.cons_append]
      apply orElse_of_some
      rw [bind_of_some (run1_append filled all (leaves_cons rfl)), bind_of_some digits]
      rfl

theorem IsNumeral.head {chars : List Char} {decimal : Numeral.Decimal}
    (isNumeral : IsNumeral chars decimal) :
    ∃ digit others, chars = digit :: others ∧ digit.isDigit = true := by
  cases isNumeral with
  | @whole digits filled all =>
      cases chars with
      | nil => exact absurd rfl filled
      | cons c others => exact ⟨c, others, rfl, all c List.mem_cons_self⟩
  | @fraction whole fraction filled all allBehind =>
      cases whole with
      | nil => exact absurd rfl filled
      | cons c others => exact ⟨c, _, rfl, all c List.mem_cons_self⟩

theorem IsNumeral.numeral_eq {chars : List Char} {decimal : Numeral.Decimal}
    (isNumeral : IsNumeral chars decimal) : numeral chars = some (decimal.toFloat, []) := by
  have text := isNumeral.numeralText_append (leaves_nil _) (leaves_nil _)
  rw [List.append_nil] at text
  rw [numeral, bind_of_some text, isNumeral.ofChars?_eq]
  rfl

theorem accumulate_zeros (count : Nat) (digits : List Char) :
    Numeral.Decimal.accumulate 0 (List.replicate count '0' ++ digits) =
      Numeral.Decimal.accumulate 0 digits := by
  induction count with
  | zero => rfl
  | succ count ih => exact ih

/-- The digits of a number are a numeral for it. -/
theorem isNumeral_digitChars (n : Nat) : IsNumeral (Numeral.Decimal.digitChars n) ⟨n, 0⟩ := by
  have value : Numeral.Decimal.accumulate 0 (Nat.toDigits 10 n) = n := Nat.ofDigitChars_ten_toDigits
  have written := IsNumeral.whole Nat.toDigits_ne_nil
    fun c (member : c ∈ Nat.toDigits 10 n) => Nat.isDigit_of_mem_toDigits (by omega) (by omega) member
  rwa [value] at written

/-- A decimal is written as a numeral for it. -/
theorem isNumeral_toChars (decimal : Numeral.Decimal) : IsNumeral decimal.toChars decimal := by
  rcases decimal with ⟨digits, places⟩
  rw [Numeral.Decimal.toChars]
  split
  · rename_i whole
    have none : places = 0 := beq_iff_eq.mp whole
    subst none
    exact isNumeral_digitChars digits
  · let written := Numeral.Decimal.digitChars digits
    let padded := List.replicate (places + 1 - written.length) '0' ++ written
    have all : ∀ c ∈ padded, c.isDigit = true := by
      intro c member
      rcases List.mem_append.mp member with zero | digit
      · rw [List.eq_of_mem_replicate zero]
        rfl
      · exact Nat.isDigit_of_mem_toDigits (by omega) (by omega) digit
    have length : places + 1 ≤ padded.length := by
      simp only [padded, List.length_append, List.length_replicate]
      omega
    have value : Numeral.Decimal.accumulate 0 padded = digits := by
      rw [accumulate_zeros]
      exact Nat.ofDigitChars_ten_toDigits
    have together : padded.take (padded.length - places) ++ padded.drop (padded.length - places) =
        padded := List.take_append_drop _ padded
    have fraction : (padded.drop (padded.length - places)).length = places := by
      rw [List.length_drop]
      omega
    have filled : padded.take (padded.length - places) ≠ [] := by
      rw [← List.length_pos_iff_ne_nil, List.length_take]
      omega
    have allBehind : ∀ c ∈ padded.drop (padded.length - places), c.isDigit = true :=
      fun c member => all c (List.mem_of_mem_drop member)
    have numeral := IsNumeral.fraction filled (fun c member => all c (List.mem_of_mem_take member))
      allBehind
    have accumulated : Numeral.Decimal.accumulate
        (Numeral.Decimal.accumulate 0 (padded.take (padded.length - places)))
        (padded.drop (padded.length - places)) = digits := by
      rw [Numeral.Decimal.accumulate, Numeral.Decimal.accumulate, ← List.foldl_append, together]
      exact value
    rwa [accumulated, fraction] at numeral

theorem quoted_of_leaves {text : List Char} (double : Leaves (· == '"') text)
    (single : Leaves (· == '\'') text) : quoted text = none := by
  rw [quoted, orElse_of_none]
  · exact bind_of_none (token_of_leaves single rfl)
  · exact bind_of_none (token_of_leaves double rfl)

/-- A number ends where neither a digit nor a point follows. -/
theorem extends_numeral (ended : Leaves Char.isDigit rest) (unpointed : Leaves (· == '.') rest) :
    Extends rest numeral := by
  have point : Extends rest (token ".") := extends_token fun c member => by
    rwa [List.mem_singleton.mp member]
  have fraction : Extends rest (do token "."; run Char.isDigit) := point.bind fun _ => extends_run ended
  have text : Extends rest numeralText := by
    apply Extends.orElse
    · refine (extends_run1 ended).bind fun whole => fraction.maybe.bind fun found => ?_
      cases found with
      | none => exact extends_pure _
      | some behind => exact extends_pure _
    · exact point.bind fun _ => (extends_run1 ended).bind fun _ => extends_pure _
  refine text.bind fun chars => ?_
  cases Numeral.Decimal.ofChars? chars with
  | none => exact fun _ => rfl
  | some decimal => exact extends_pure _

/-- A number begins neither with a blank nor with a sign, a bracket or a quote. -/
theorem leaves_of_numeral {text : List Char} {amount : Float}
    (given : numeral text = some (amount, rest)) {c : Char}
    (refused : ∀ others, numeral (c :: others) = none) : Leaves (· == c) text := by
  cases text with
  | nil => cases given
  | cons first others =>
      apply leaves_cons
      rw [beq_eq_false_iff_ne]
      rintro rfl
      rw [refused] at given
      cases given

/-- A number without a sign. -/
theorem primary_of_numeral {text : List Char} {amount : Float}
    (given : numeral text = some (amount, rest)) : primary sub text = some (.number amount, rest) := by
  have begins {c : Char} (refused : ∀ others, numeral (c :: others) = none) : Leaves (· == c) text :=
    leaves_of_numeral given refused
  rw [primary, orElse_of_none (bind_of_none (token_of_leaves (begins fun _ => rfl) rfl)),
    orElse_of_none (bind_of_none (token_of_leaves (begins fun _ => rfl) rfl)),
    orElse_of_none (bind_of_none (quoted_of_leaves (begins fun _ => rfl) (begins fun _ => rfl)))]
  apply orElse_of_some
  rw [bind_of_some given]
  rfl

/-- The words that call no function where a parenthesis follows. -/
def testWords : List String := ["node", "text", "comment", "processing-instruction"]

theorem testWord_append {chars : List Char} (isName : IsName chars) (ended : Leaves isNameChar rest) :
    testWord (chars ++ rest) = if String.ofList chars ∈ testWords then some ((), rest) else none := by
  have spelled (word : String) : chars = word.toList ↔ String.ofList chars = word := by
    rw [← String.toList_inj, String.toList_ofList]
  simp only [testWord, orElse_apply, keyword_append isName ended, spelled, testWords,
    List.mem_cons, List.not_mem_nil, or_false]
  by_cases node : String.ofList chars = "node" <;> by_cases text : String.ofList chars = "text" <;>
    by_cases comment : String.ofList chars = "comment" <;> simp [node, text, comment]

section
variable {sub} {chars text middle : List Char}

/-- A name that calls a function is not read as the beginning of a test. -/
theorem testWord_of_callable (named : IsQualifiedName chars)
    (callable : String.ofList chars ∉ testWords) :
    (do testWord; blanks; token "(" : Reader Unit) (chars ++ '(' :: text) = none := by
  cases named with
  | simple isName =>
      apply bind_of_none
      rw [testWord_append isName (leaves_cons rfl), if_neg callable]
  | @prefixed space chars first second =>
      rw [List.append_assoc, List.cons_append, bind_apply, testWord_append first (leaves_cons rfl)]
      split <;> rfl

/-- A name with arguments in parentheses, or with none. -/
theorem functionCall_of_maybe {given : Option (List Expr)} (named : IsQualifiedName chars)
    (callable : String.ofList chars ∉ testWords)
    (arguments : maybe (commaSeparated sub) (dropBlanks text) = some (given, middle))
    (ends : dropBlanks middle = ')' :: rest) :
    functionCall sub (chars ++ '(' :: text) =
      some (.call (String.ofList chars) (given.getD []), rest) := by
  have opened : token "(" ('(' :: text) = some ((), text) := rfl
  have closed : token ")" (')' :: rest) = some ((), rest) := rfl
  rw [functionCall, bind_of_some (absent_of_none (testWord_of_callable named callable)),
    bind_of_some (blanks_apply _), named.dropBlanks_eq,
    bind_of_some (name_append named (leaves_cons rfl) (leaves_cons rfl)),
    bind_of_some (blanks_apply _), dropBlanks_of_leaves (leaves_cons rfl), bind_of_some opened,
    bind_of_some (blanks_apply _), bind_of_some arguments, bind_of_some (blanks_apply _), ends,
    bind_of_some closed]
  rfl

theorem functionCall_of_arguments {first : Expr} {others : List Expr} {last : List Char}
    (named : IsQualifiedName chars) (callable : String.ofList chars ∉ testWords)
    (reads : Reads sub (dropBlanks text) first middle)
    (items : Items (afterComma sub) middle others last) (ends : dropBlanks last = ')' :: rest) :
    functionCall sub (chars ++ '(' :: text) =
      some (.call (String.ofList chars) (first :: others), rest) := by
  rcases spaced_of_items items with ⟨left, taken, behind⟩
  have arguments : maybe (commaSeparated sub) (dropBlanks text) =
      some (some (first :: others), left) := by
    apply maybe_of_some
    rw [commaSeparated, reads.bind_blanks, bind_of_some taken]
    rfl
  exact functionCall_of_maybe named callable arguments (behind.dropBlanks_eq.trans ends)

theorem afterComma_of_item {value : Expr} (reads : Reads sub (dropBlanks text) value rest) :
    Reads (afterComma sub) (',' :: text) value rest := by
  rcases reads with ⟨left, given, behind⟩
  have comma : token "," (',' :: text) = some ((), text) := rfl
  refine ⟨left, ?_, behind⟩
  rw [afterComma, bind_of_some comma, bind_of_some (blanks_apply _), given]

end

/-- A call is the only primary expression that begins with a name. -/
theorem primary_of_name {chars : List Char} (named : IsQualifiedName chars) :
    primary sub (chars ++ rest) = functionCall sub (chars ++ rest) := by
  have unquoted : quoted (chars ++ rest) = none :=
    quoted_of_leaves (named.leaves rfl) (named.leaves rfl)
  have number : numeral (chars ++ rest) = none := by
    rw [numeral, bind_of_none]
    rw [numeralText, orElse_of_none (bind_of_none (run1_of_leaves named.leaves_isDigit)),
      bind_of_none (token_of_leaves (named.leaves rfl) rfl)]
  rw [primary, orElse_of_none (bind_of_none (token_of_leaves (named.leaves rfl) rfl)),
    orElse_of_none (bind_of_none (token_of_leaves (named.leaves rfl) rfl)),
    orElse_of_none (bind_of_none unquoted), orElse_of_none (bind_of_none number)]

end

end NodeQuery.Expr

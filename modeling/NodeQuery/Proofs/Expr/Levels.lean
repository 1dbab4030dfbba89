import NodeQuery.Expr.Printer
import NodeQuery.Proofs.Expr.Rules

/-!
# Levels of operators

An operand that no operator follows is read by every level above it alike.  Operands and whole bodies
are described by what they read as wherever they may stand, so that the text of an expression can be
put together from texts of its parts and the reading comes along.
-/

namespace NodeQuery

/-- The level of an operator on numbers, counted from the tightest. -/
def Arithmetic.level : Arithmetic → Nat
  | .mul | .div | .mod => 1
  | .add | .sub => 2

def Comparison.level : Comparison → Nat
  | .lt | .le | .gt | .ge => 3
  | .eq | .ne => 4

def Connective.level : Connective → Nat
  | .and => 5
  | .or => 6

namespace Expr

open Text (Reader)
open Text.Reader

variable {sub : Reader Expr} {text rest next : List Char} {value first second : Expr}
variable {level above : Nat} {sign : String} {combine : Operator}

/-- The operators of a level. -/
def levelOperator : Nat → Reader Operator
  | 0 => unionOperator
  | 1 => productOperator
  | 2 => sumOperator
  | 3 => orderOperator
  | 4 => equalityOperator
  | 5 => andOperator
  | _ => orOperator

/-- What the operators of a level stand between. -/
def levelOperand (sub : Reader Expr) : Nat → Reader Expr
  | 0 => path sub
  | 1 => unaryLevel sub
  | 2 => productLevel sub
  | 3 => sumLevel sub
  | 4 => orderLevel sub
  | 5 => equalityLevel sub
  | 6 => andLevel sub
  | _ => orLevel sub

theorem Closes.levelOperator (closes : Closes rest) (level : Nat) :
    levelOperator level (dropBlanks rest) = none := by
  rw [closes.dropBlanks_eq]
  match level with
  | 0 | 1 | 2 | 3 | 4 | 5 | _ + 6 => cases closes <;> rfl

/-- The sign of an operator of a level.  Where a blank follows, the levels below it do not read the sign,
and no operand goes on with it. -/
structure IsOperator (level : Nat) (sign : String) (combine : Operator) : Prop where
  known : level < 7
  begins : ∃ c others, sign.toList = c :: others ∧ goesOn c = false
  taken : ∀ c, isBlank c = true → ∀ next,
    levelOperator level (sign.toList ++ c :: next) = some (combine, c :: next)
  refused : ∀ below < level, ∀ c, isBlank c = true → ∀ next,
    levelOperator below (sign.toList ++ c :: next) = none

theorem isOperator_union : IsOperator 0 "|" .union where
  known := by decide
  begins := ⟨_, _, rfl, rfl⟩
  taken _ _ _ := rfl
  refused _ impossible := by omega

theorem isOperator_arithmetic (operator : Arithmetic) :
    IsOperator operator.level operator.sign (.arithmetic operator) where
  known := by cases operator <;> decide
  begins := by cases operator <;> exact ⟨_, _, rfl, rfl⟩
  taken c blank next := by
    rcases isBlank_cases blank with rfl | rfl | rfl | rfl <;> cases operator <;> rfl
  refused below less c blank next := by
    rcases isBlank_cases blank with rfl | rfl | rfl | rfl <;>
      cases operator <;> rw [Arithmetic.level] at less <;> interval_cases below <;> rfl

theorem isOperator_comparison (operator : Comparison) :
    IsOperator operator.level operator.sign (.comparison operator) where
  known := by cases operator <;> decide
  begins := by cases operator <;> exact ⟨_, _, rfl, rfl⟩
  taken c blank next := by
    rcases isBlank_cases blank with rfl | rfl | rfl | rfl <;> cases operator <;> rfl
  refused below less c blank next := by
    rcases isBlank_cases blank with rfl | rfl | rfl | rfl <;>
      cases operator <;> rw [Comparison.level] at less <;> interval_cases below <;> rfl

theorem isOperator_connective (operator : Connective) :
    IsOperator operator.level operator.sign (.connective operator) where
  known := by cases operator <;> decide
  begins := by cases operator <;> exact ⟨_, _, rfl, rfl⟩
  taken c blank next := by
    rcases isBlank_cases blank with rfl | rfl | rfl | rfl <;> cases operator <;> rfl
  refused below less c blank next := by
    rcases isBlank_cases blank with rfl | rfl | rfl | rfl <;>
      cases operator <;> rw [Connective.level] at less <;> interval_cases below <;> rfl

section
variable (isOperator : IsOperator level sign combine) (next : List Char)
include isOperator

theorem IsOperator.follows : Follows (' ' :: (sign.toList ++ ' ' :: next)) := by
  rcases isOperator.begins with ⟨c, others, spelled, plain⟩
  rw [spelled]
  exact .operator c _ plain

theorem IsOperator.dropBlanks_eq :
    dropBlanks (' ' :: (sign.toList ++ ' ' :: next)) = sign.toList ++ ' ' :: next := by
  rcases isOperator.begins with ⟨c, others, spelled, plain⟩
  rw [spelled]
  exact dropBlanks_of_operator plain

end

/-- A text with neither a blank nor a minus sign in front. -/
def Unsigned (text : List Char) : Prop := Leaves isBlank text ∧ Leaves (· == '-') text

theorem Unsigned.stops (unsigned : Unsigned text) : token "-" (dropBlanks text) = none := by
  rw [dropBlanks_of_leaves unsigned.1]
  exact token_of_leaves unsigned.2 rfl

/-- Minus signs negate what follows them. -/
theorem unaryLevel_of_signs {signs : List Unit} (items : Items (token "-") text signs next)
    (reads : Reads (unionLevel sub) (dropBlanks next) value rest) :
    Reads (unaryLevel sub) (dropBlanks text) (signs.foldl (fun inner _ => .negate inner) value) rest := by
  have taken : Reads (spaced (token "-")) (dropBlanks text) signs next := spaced_of_items items
  rcases reads with ⟨left, given, behind⟩
  refine ⟨left, ?_, behind⟩
  rw [unaryLevel, taken.bind_blanks, bind_of_some given]
  rfl

/-- Without a sign, a union of paths is read as it is. -/
theorem unaryLevel_of_union (unsigned : Unsigned text)
    (reads : Reads (unionLevel sub) text value rest) : Reads (unaryLevel sub) text value rest := by
  have solid := dropBlanks_of_leaves unsigned.1
  rw [← solid] at reads ⊢
  exact unaryLevel_of_signs (.done unsigned.stops) reads

/-- One minus sign negates what follows it. -/
theorem unaryLevel_of_minus (unsigned : Unsigned text)
    (reads : Reads (unionLevel sub) text value rest) :
    Reads (unaryLevel sub) ('-' :: text) (.negate value) rest := by
  have sign : token "-" ('-' :: text) = some ((), text) := rfl
  have items : Items (token "-") ('-' :: text) [()] text :=
    .more (Reads.of_eq sign) (Nat.lt_succ_self _) (.done unsigned.stops)
  rw [← dropBlanks_of_leaves unsigned.1] at reads
  exact unaryLevel_of_signs items reads

/-- Operands with operators of a level between them are an operand of the next. -/
theorem levelOperand_succ (known : level < 7) (unsigned : level = 0 → Unsigned text)
    (reads : Reads (leftGrouped (levelOperand sub level) (levelOperator level)) text value rest) :
    Reads (levelOperand sub (level + 1)) text value rest := by
  rcases Nat.eq_zero_or_pos level with rfl | positive
  · exact unaryLevel_of_union (unsigned rfl) reads
  · interval_cases level <;> exact reads

/-- An operand that no operator follows is an operand of every higher level. -/
theorem levelOperand_climb (le : level ≤ above) (known : above ≤ 7)
    (unsigned : level = 0 → Unsigned text) (reads : Reads (levelOperand sub level) text value rest)
    (stops : ∀ between, level ≤ between → between < above →
      levelOperator between (dropBlanks rest) = none) :
    Reads (levelOperand sub above) text value rest := by
  induction above, le using Nat.le_induction with
  | base => exact reads
  | succ above le ih =>
      have lower := ih (by omega) fun between least most => stops between least (by omega)
      apply levelOperand_succ (by omega) (fun zero => unsigned (by omega))
      exact leftGrouped_of_single lower (stops above le (Nat.lt_succ_self above))

/-- Two operands of a level with an operator between them are an operand of the next. -/
theorem levelOperand_of_pair (isOperator : IsOperator level sign combine)
    (unsigned : level = 0 → Unsigned text)
    (reads : Reads (levelOperand sub level) text first (' ' :: (sign.toList ++ ' ' :: next)))
    (solid : Leaves isBlank next) (secondReads : Reads (levelOperand sub level) next second rest)
    (shorter : rest.length ≤ next.length) (stops : levelOperator level (dropBlanks rest) = none) :
    Reads (levelOperand sub (level + 1)) text (combine first second) rest := by
  have taken := isOperator.taken ' ' rfl next
  have behind : dropBlanks (' ' :: next) = next := dropBlanks_of_leaves solid
  rw [← isOperator.dropBlanks_eq] at taken
  rw [← behind] at secondReads
  apply levelOperand_succ isOperator.known unsigned
  apply leftGrouped_of_pair reads taken secondReads _ stops
  rw [isOperator.dropBlanks_eq, List.length_append, List.length_cons]
  omega

/-!
## Operands and bodies

Both are told by what they read as in front of anything that may follow them, so texts can be put together
without being read again.
-/

/-- The text of an operand: a path of any kind wherever an operand may stand, once brackets may nest
as deep as `depth`. -/
structure Operand (depth : Nat) (text : List Char) (value : Expr) : Prop where
  begins : ∃ c others, text = c :: others ∧ isBlank c = false ∧ c ≠ '-'
  reads : ∀ limit, depth ≤ limit → ∀ rest, Follows rest →
    Reads (path (exprUpTo limit)) (text ++ rest) value rest

/-- The text of a whole expression wherever one may stand in brackets or as an argument. -/
structure Body (depth : Nat) (text : List Char) (value : Expr) : Prop where
  begins : ∃ c others, text = c :: others ∧ isBlank c = false
  reads : ∀ limit, depth ≤ limit → ∀ rest, Closes rest →
    Reads (exprUpTo limit) (text ++ rest) value rest

variable {depth deeper limit : Nat}

theorem Operand.mono (operand : Operand depth text value) (le : depth ≤ deeper) :
    Operand deeper text value where
  begins := operand.begins
  reads limit enough := operand.reads limit (Nat.le_trans le enough)

theorem Body.mono (body : Body depth text value) (le : depth ≤ deeper) : Body deeper text value where
  begins := body.begins
  reads limit enough := body.reads limit (Nat.le_trans le enough)

theorem unsigned_of_begins (begins : ∃ c others, text = c :: others ∧ isBlank c = false ∧ c ≠ '-')
    (rest : List Char) : Unsigned (text ++ rest) := by
  rcases begins with ⟨c, others, rfl, solid, unsigned⟩
  exact ⟨leaves_cons solid, leaves_cons (beq_eq_false_iff_ne.mpr unsigned)⟩

theorem Operand.unsigned (operand : Operand depth text value) (rest : List Char) :
    Unsigned (text ++ rest) := unsigned_of_begins operand.begins rest

theorem Operand.begins_append (operand : Operand depth text value) (behind : List Char) :
    ∃ c others, text ++ behind = c :: others ∧ isBlank c = false := by
  rcases operand.begins with ⟨c, others, spelled, solid, _⟩
  exact ⟨c, others ++ behind, by rw [spelled, List.cons_append], solid⟩

theorem Body.solid (body : Body depth text value) (rest : List Char) :
    Leaves isBlank (text ++ rest) := by
  rcases body.begins with ⟨c, others, spelled, solid⟩
  rw [spelled]
  exact leaves_cons solid

/-- What an operand of some level reads in front of closing characters is a whole expression, read one
pair of brackets further in than its parts. -/
theorem Body.of_level (begins : ∃ c others, text = c :: others ∧ isBlank c = false)
    (known : level ≤ 7) (unsigned : level = 0 → ∀ rest, Unsigned (text ++ rest))
    (reads : ∀ limit, depth ≤ limit → ∀ rest, Closes rest →
      Reads (levelOperand (exprUpTo limit) level) (text ++ rest) value rest) :
    Body (depth + 1) text value where
  begins := begins
  reads limit enough rest closes := by
    cases limit with
    | zero => omega
    | succ limit =>
        exact levelOperand_climb known (Nat.le_refl 7) (fun zero => unsigned zero rest)
          (reads limit (Nat.le_of_succ_le_succ enough) rest closes)
          fun between _ _ => closes.levelOperator between

/-- A path that reads up to closing characters is a body, unless a sign stands in front of it. -/
theorem Body.of_path (begins : ∃ c others, text = c :: others ∧ isBlank c = false ∧ c ≠ '-')
    (reads : ∀ limit, depth ≤ limit → ∀ rest, Closes rest →
      Reads (path (exprUpTo limit)) (text ++ rest) value rest) : Body (depth + 1) text value := by
  apply Body.of_level _ (Nat.zero_le 7) (fun _ => unsigned_of_begins begins) reads
  rcases begins with ⟨c, others, spelled, solid, _⟩
  exact ⟨c, others, spelled, solid⟩

/-- An operand is a body of its own. -/
theorem Operand.body (operand : Operand depth text value) : Body (depth + 1) text value :=
  Body.of_path operand.begins fun limit enough rest closes =>
    operand.reads limit enough rest (.closing closes)

section
variable (operand : Operand depth text value) (enough : depth ≤ limit)
include operand enough

/-- An operand is one of every level whose lower operators do not follow. -/
theorem Operand.atLevel (known : level ≤ 7) (follows : Follows rest)
    (stops : ∀ below < level, levelOperator below (dropBlanks rest) = none) :
    Reads (levelOperand (exprUpTo limit) level) (text ++ rest) value rest :=
  levelOperand_climb (Nat.zero_le level) known (fun _ => operand.unsigned rest)
    (operand.reads limit enough rest follows) fun below _ less => stops below less

theorem Operand.closed (known : level ≤ 7) (closes : Closes rest) :
    Reads (levelOperand (exprUpTo limit) level) (text ++ rest) value rest :=
  operand.atLevel enough known (.closing closes) fun below _ => closes.levelOperator below

theorem Operand.before (isOperator : IsOperator above sign combine) (le : level ≤ above)
    (next : List Char) :
    Reads (levelOperand (exprUpTo limit) level) (text ++ ' ' :: (sign.toList ++ ' ' :: next)) value
      (' ' :: (sign.toList ++ ' ' :: next)) := by
  apply operand.atLevel enough (Nat.le_trans le isOperator.known.le) (isOperator.follows next)
  intro below less
  rw [isOperator.dropBlanks_eq]
  exact isOperator.refused below (Nat.lt_of_lt_of_le less le) ' ' rfl next

end

/-- A minus sign in front of an operand. -/
theorem Body.minus (operand : Operand depth text value) :
    Body (depth + 1) ('-' :: text) (.negate value) := by
  have known : 1 ≤ 7 := by decide
  apply Body.of_level ⟨'-', text, rfl, rfl⟩ known fun impossible => absurd impossible Nat.one_ne_zero
  intro limit enough rest closes
  exact unaryLevel_of_minus (operand.unsigned rest)
    (leftGrouped_of_single (operand.reads limit enough rest (.closing closes))
      (closes.levelOperator 0))

section
variable {left right last : List Char} {third : Expr}
variable (leftOperand : Operand depth left first) (rightOperand : Operand depth right second)
include leftOperand rightOperand

theorem levelOperand_of_operands (isOperator : IsOperator level sign combine) (enough : depth ≤ limit)
    (reads : Reads (levelOperand (exprUpTo limit) level) (right ++ rest) second rest)
    (stops : levelOperator level (dropBlanks rest) = none) :
    Reads (levelOperand (exprUpTo limit) (level + 1))
      (left ++ ' ' :: (sign.toList ++ ' ' :: (right ++ rest))) (combine first second) rest := by
  apply levelOperand_of_pair isOperator (fun _ => leftOperand.unsigned _)
    (leftOperand.before enough isOperator (Nat.le_refl level) _) (rightOperand.unsigned rest).1 reads _
    stops
  rw [List.length_append]
  omega

/-- An operator between two operands. -/
theorem Body.binary (isOperator : IsOperator level sign combine) :
    Body (depth + 1) (left ++ ' ' :: (sign.toList ++ ' ' :: right)) (combine first second) := by
  apply Body.of_level (leftOperand.begins_append _) isOperator.known
    fun impossible => absurd impossible (Nat.succ_ne_zero level)
  intro limit enough rest closes
  simp only [List.append_assoc, List.cons_append]
  exact levelOperand_of_operands leftOperand rightOperand isOperator enough
    (rightOperand.closed enough isOperator.known.le closes) (closes.levelOperator level)

theorem Body.equal :
    Body (depth + 1) (left ++ ' ' :: '=' :: ' ' :: right) (.comparison .eq first second) :=
  Body.binary leftOperand rightOperand (isOperator_comparison .eq)

/-- An equality, or else a third operand. -/
theorem Body.equalOr (lastOperand : Operand depth last third) :
    Body (depth + 1)
      (left ++ ' ' :: '=' :: ' ' :: (right ++ ' ' :: 'o' :: 'r' :: ' ' :: last))
      (.connective .or (.comparison .eq first second) third) := by
  have isEqual := isOperator_comparison .eq
  have isOr := isOperator_connective .or
  apply Body.of_level (leftOperand.begins_append _) isOr.known
    fun impossible => absurd impossible (Nat.succ_ne_zero _)
  intro limit enough rest closes
  simp only [List.append_assoc, List.cons_append]
  have stops (between : Nat) (less : between < 6) :
      levelOperator between (dropBlanks (' ' :: 'o' :: 'r' :: ' ' :: (last ++ rest))) = none :=
    isOr.refused between less ' ' rfl _
  have equality : Reads (levelOperand (exprUpTo limit) 5) _ (.comparison .eq first second)
      (' ' :: 'o' :: 'r' :: ' ' :: (last ++ rest)) :=
    levelOperand_of_operands leftOperand rightOperand isEqual enough
      (rightOperand.before enough isOr (by decide) (last ++ rest)) (stops 4 (by decide))
  have climbed : Reads (levelOperand (exprUpTo limit) 6) _ (.comparison .eq first second) _ :=
    levelOperand_climb (by decide) (by decide) (fun impossible => by omega) equality
      fun between _ less => stops between less
  apply levelOperand_of_pair isOr (fun impossible => absurd impossible (by decide)) climbed
    (lastOperand.unsigned rest).1 (lastOperand.closed enough isOr.known.le closes) _
    (closes.levelOperator 6)
  rw [List.length_append]
  omega

/-- A difference of two operands, with a third one added. -/
theorem Body.differencePlus (lastOperand : Operand depth last third) :
    Body (depth + 1)
      (left ++ ' ' :: '-' :: ' ' :: (right ++ ' ' :: '+' :: ' ' :: last))
      (.arithmetic .add (.arithmetic .sub first second) third) := by
  have isMinus := isOperator_arithmetic .sub
  have isPlus := isOperator_arithmetic .add
  have known : 3 ≤ 7 := by decide
  apply Body.of_level (leftOperand.begins_append _) known
    fun impossible => absurd impossible (Nat.succ_ne_zero 2)
  intro limit enough rest closes
  simp only [List.append_assoc, List.cons_append]
  have added : Operations (productLevel (exprUpTo limit)) sumOperator
      (' ' :: '+' :: ' ' :: (last ++ rest)) [(.arithmetic .add, third)] rest := by
    refine .more (operation_reads (isPlus.taken ' ' rfl (last ++ rest)) ?_) ?_
      (.done (operation_stops (closes.levelOperator 2)))
    · change Reads _ (dropBlanks (last ++ rest)) third rest
      rw [dropBlanks_of_leaves (lastOperand.unsigned rest).1]
      exact lastOperand.closed enough isPlus.known.le closes
    · change _ < ('+' :: ' ' :: (last ++ rest)).length
      simp only [List.length_cons, List.length_append]
      omega
  have subtracted : Operations (productLevel (exprUpTo limit)) sumOperator
      (' ' :: '-' :: ' ' :: (right ++ ' ' :: '+' :: ' ' :: (last ++ rest)))
      [(.arithmetic .sub, second), (.arithmetic .add, third)] rest := by
    refine .more (operation_reads
      (isMinus.taken ' ' rfl (right ++ ' ' :: '+' :: ' ' :: (last ++ rest))) ?_) ?_ added
    · change Reads _ (dropBlanks (right ++ ' ' :: '+' :: ' ' :: (last ++ rest))) second _
      rw [dropBlanks_of_leaves (rightOperand.unsigned _).1]
      exact rightOperand.before enough isPlus (Nat.le_refl 2) (last ++ rest)
    · change _ < ('-' :: ' ' :: (right ++ ' ' :: '+' :: ' ' :: (last ++ rest))).length
      simp only [List.length_cons, List.length_append]
      omega
  exact leftGrouped_of_operations (leftOperand.before enough isMinus (Nat.le_refl 2) _) subtracted

end

/-- A string between quotes that it does not contain. -/
theorem Operand.string {quote : Char} (known : quote = '"' ∨ quote = '\'') {content : String}
    (unquoted : quote ∉ content.toList) :
    Operand 0 (quote :: (content.toList ++ [quote])) (.string content) where
  begins := by
    refine ⟨quote, content.toList ++ [quote], rfl, ?_⟩
    rcases known with rfl | rfl <;> exact ⟨rfl, by decide⟩
  reads limit _ rest follows := by
    have given : primary (exprUpTo limit) (quote :: (content.toList ++ quote :: rest)) = _ :=
      primary_quoted _ known unquoted
    rw [String.ofList_toList] at given
    rw [List.cons_append, List.append_assoc, List.singleton_append]
    apply path_of_primary _ given follows.endsPath
    rcases known with rfl | rfl <;> exact leaves_cons rfl

/-- An attribute of the node in focus. -/
theorem Operand.attribute {name : String} (isName : IsName name.toList) :
    Operand 0 ('@' :: name.toList) (.focusPath [.mk .attribute (.named name) []]) where
  begins := ⟨'@', name.toList, rfl, rfl, by decide⟩
  reads limit _ rest follows := by
    have given := axisAndTest_attribute isName follows.endsName
    rw [String.ofList_toList] at given
    apply path_of_steps (leaves_cons rfl) rfl
    · apply steps_of_step _ follows.endsPath
      exact step_of_predicates (leaves_cons rfl) given (.done (follows.endsPath.predicate _))
    · intro only same
      cases same
      rfl

/-- The node in focus. -/
theorem Operand.focus : Operand 0 ['.'] .focus where
  begins := ⟨'.', [], rfl, rfl, by decide⟩
  reads limit _ rest follows := by
    have unfiltered : filterPath (exprUpTo limit) ('.' :: rest) = none := by
      cases follows with
      | closing closes => cases closes <;> rfl
      | operator c rest plain => rfl
    have dot : step (exprUpTo limit) ('.' :: rest) = some (.mk .self .node [], rest) := by
      cases follows with
      | closing closes => cases closes <;> rfl
      | operator c rest plain => rfl
    rcases steps_of_step (Reads.of_eq dot) follows.endsPath with ⟨left, given, behind⟩
    refine ⟨left, ?_, behind⟩
    rw [List.singleton_append, path, orElse_of_none (rootedPath_of_leaves (leaves_cons rfl)),
      orElse_of_none unfiltered, relativePath, bind_of_some given]
    rfl

/-- The nodes along an axis that pass a test. -/
theorem Operand.along (axis : Axis) {test : NodeTest} {text : List Char}
    (solid : ∀ rest, Leaves isBlank (text ++ rest))
    (reads : ∀ rest, EndsName rest → nodeTest (text ++ rest) = some (test, rest))
    (moves : (Step.mk axis test []).isSelf = false) :
    Operand 0 (axis.name.toList ++ ':' :: ':' :: text) (.focusPath [.mk axis test []]) where
  begins := BeginsAxis.head ⟨axis, text, rfl⟩
  reads limit _ rest follows := by
    have given := axisAndTest_axis axis (solid rest) (reads rest follows.endsName)
    have begins : BeginsAxis (axis.name.toList ++ ':' :: ':' :: (text ++ rest)) := ⟨axis, _, rfl⟩
    rw [List.append_assoc, List.cons_append, List.cons_append]
    apply path_of_steps (begins.leaves rfl) (begins.primary_none _)
    · apply steps_of_step _ follows.endsPath
      exact step_of_predicates (begins.leaves rfl) given (.done (follows.endsPath.predicate _))
    · intro only same
      cases same
      exact moves

/-- The children of the node in focus, of any kind. -/
theorem Operand.children :
    Operand 0 ['n', 'o', 'd', 'e', '(', ')'] (.focusPath [.mk .child .node []]) where
  begins := ⟨'n', _, rfl, rfl, by decide⟩
  reads limit _ rest follows := by
    have given : axisAndTest ('n' :: 'o' :: 'd' :: 'e' :: '(' :: ')' :: rest) =
        some ((.child, .node), rest) := rfl
    refine path_of_steps (leaves_cons rfl) rfl (steps_of_step ?_ follows.endsPath) ?_
    · exact step_of_predicates (leaves_cons rfl) given (.done (follows.endsPath.predicate _))
    · intro only same
      cases same
      rfl

theorem Follows.leaves_isDigit (follows : Follows rest) :
    Leaves Char.isDigit rest ∧ Leaves (· == '.') rest := by
  cases follows with
  | closing closes => exact ⟨closes.leaves ⟨rfl, rfl, rfl⟩, closes.leaves ⟨rfl, rfl, rfl⟩⟩
  | operator c rest plain => exact ⟨leaves_cons rfl, leaves_cons rfl⟩

/-- A number without a sign. -/
theorem Operand.of_numeral {chars : List Char} {amount : Float}
    (given : numeral chars = some (amount, [])) : Operand 0 chars (.number amount) where
  begins := by
    cases chars with
    | nil => cases given
    | cons c others =>
        have apart {d : Char} (refused : ∀ others, numeral (d :: others) = none) : c ≠ d :=
          beq_eq_false_iff_ne.mp (leaves_of_numeral given refused c rfl)
        refine ⟨c, others, rfl, ?_, apart fun _ => rfl⟩
        rw [Bool.eq_false_iff]
        intro blank
        rcases isBlank_cases blank with rfl | rfl | rfl | rfl <;> exact apart (fun _ => rfl) rfl
  reads limit _ rest follows := by
    rcases follows.leaves_isDigit with ⟨ended, unpointed⟩
    have longer : numeral (chars ++ rest) = some (amount, rest) := by
      rw [extends_numeral ended unpointed chars, given]
      rfl
    exact path_of_primary (leaves_of_numeral longer fun _ => rfl) (primary_of_numeral _ longer)
      follows.endsPath

theorem Operand.numeral {chars : List Char} {decimal : Numeral.Decimal}
    (isNumeral : IsNumeral chars decimal) : Operand 0 chars (.number decimal.toFloat) :=
  Operand.of_numeral isNumeral.numeral_eq

/-- The text of a call: the arguments in parentheses, with commas between them. -/
def callChars (function first : List Char) (others : List (List Char)) : List Char :=
  function ++ '(' :: (first ++ (others.flatMap fun text => ',' :: ' ' :: text) ++ [')'])

/-- What is behind an argument closes it: the comma before the next one or the parenthesis. -/
theorem closes_arguments (texts : List (List Char)) (rest : List Char) :
    Closes ((texts.flatMap fun text => ',' :: ' ' :: text) ++ ')' :: rest) := by
  cases texts with
  | nil => exact .parenthesis rest
  | cons text texts => exact .comma _

theorem items_of_bodies {arguments : List (List Char × Expr)}
    (bodies : ∀ argument ∈ arguments, Body depth argument.1 argument.2) (enough : depth ≤ limit)
    (rest : List Char) :
    Items (afterComma (exprUpTo limit))
      (((arguments.map (·.1)).flatMap fun text => ',' :: ' ' :: text) ++ ')' :: rest)
      (arguments.map (·.2)) (')' :: rest) := by
  induction arguments with
  | nil => exact .done rfl
  | cons argument arguments ih =>
      have body := bodies argument List.mem_cons_self
      have others := ih fun other member => bodies other (List.mem_cons_of_mem _ member)
      have closes := closes_arguments (arguments.map (·.1)) rest
      simp only [List.map_cons, List.flatMap_cons, List.append_assoc, List.cons_append]
      generalize ((arguments.map (·.1)).flatMap fun text => ',' :: ' ' :: text) ++ ')' :: rest =
        behind at others closes ⊢
      have solid : dropBlanks (' ' :: (argument.1 ++ behind)) = argument.1 ++ behind :=
        dropBlanks_of_leaves (body.solid behind)
      refine .more (afterComma_of_item ?_) ?_ others
      · rw [solid]
        exact body.reads limit enough behind closes
      · change _ < (',' :: ' ' :: (argument.1 ++ behind)).length
        simp only [List.length_cons, List.length_append]
        omega

section
variable {function : String} (named : IsQualifiedName function.toList) (callable : function ∉ testWords)
include named

/-- What is read as a call is an operand. -/
theorem Operand.of_functionCall {behind : List Char} {arguments : List Expr}
    (reads : ∀ limit, depth ≤ limit → ∀ rest,
      functionCall (exprUpTo limit) (function.toList ++ '(' :: (behind ++ rest)) =
        some (.call function arguments, rest)) :
    Operand depth (function.toList ++ '(' :: behind) (.call function arguments) where
  begins := by
    have solid : Leaves isBlank (function.toList ++ []) := named.solid
    have unsigned : Leaves (· == '-') (function.toList ++ []) := named.leaves rfl
    rcases named.head with ⟨c, letters, spelled, _⟩
    rw [spelled] at solid unsigned ⊢
    exact ⟨c, _, rfl, solid c rfl, beq_eq_false_iff_ne.mp (unsigned c rfl)⟩
  reads limit enough rest follows := by
    rw [List.append_assoc, List.cons_append]
    apply path_of_primary (named.leaves rfl) _ follows.endsPath
    rw [primary_of_name _ named, reads limit enough rest]

include callable

/-- A call of a function by a name that is not a test. -/
theorem Operand.call {text : List Char} {value : Expr} {others : List (List Char × Expr)}
    (body : Body depth text value)
    (bodies : ∀ argument ∈ others, Body depth argument.1 argument.2) :
    Operand depth (callChars function.toList text (others.map (·.1)))
      (.call function (value :: others.map (·.2))) := by
  apply Operand.of_functionCall named
  intro limit enough rest
  have closes := closes_arguments (others.map (·.1)) rest
  have items := items_of_bodies bodies enough rest
  have reads := body.reads limit enough _ closes
  rw [← dropBlanks_of_leaves (body.solid _)] at reads
  have given := functionCall_of_arguments named (String.ofList_toList ▸ callable) reads items
    (dropBlanks_of_leaves (leaves_cons rfl))
  rw [String.ofList_toList] at given
  simp only [List.append_assoc, List.cons_append, List.nil_append] at given ⊢
  exact given

/-- A call without arguments. -/
theorem Operand.callNone : Operand 0 (function.toList ++ ['(', ')']) (.call function []) := by
  apply Operand.of_functionCall named
  intro limit _ rest
  have refused : exprUpTo limit (')' :: rest) = none := by cases limit <;> rfl
  have none : maybe (commaSeparated (exprUpTo limit)) (dropBlanks (')' :: rest)) =
      some (none, ')' :: rest) := by
    rw [dropBlanks_of_leaves (leaves_cons rfl)]
    exact maybe_of_none (bind_of_none refused)
  have given := functionCall_of_maybe named (String.ofList_toList ▸ callable) none
    (dropBlanks_of_leaves (leaves_cons rfl))
  rwa [String.ofList_toList] at given

end

/-- A text that is read up to its end, with brackets nested no deeper than it is long. -/
theorem parse?_of_orLevel {source : String} (solid : Leaves isBlank source.toList)
    (reads : Reads (orLevel (exprUpTo source.toList.length)) source.toList value []) :
    parse? source = some value := by
  rcases reads with ⟨left, given, behind⟩
  have finished : left = [] := behind.eq_of_leaves (leaves_nil isBlank)
  rw [finished] at given
  have whole : expr source.toList = some (value, []) := given
  rw [parse?, whole?, bind_assoc, bind_of_some (blanks_apply _), dropBlanks_of_leaves solid,
    bind_assoc, bind_of_some whole]
  rfl

theorem parse?_of_body {source : String} (body : Body depth source.toList value)
    (fits : depth ≤ source.toList.length + 1) : parse? source = some value := by
  have solid := body.solid []
  have reads := body.reads (source.toList.length + 1) fits [] .nil
  rw [List.append_nil] at solid reads
  exact parse?_of_orLevel solid reads

end Expr

end NodeQuery

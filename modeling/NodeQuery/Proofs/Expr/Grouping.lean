import NodeQuery.Expr.Grouping
import NodeQuery.Proofs.Expr.Brackets
import NodeQuery.Proofs.Expr.Levels

/-!
# How chains are read

A chain is read as the expression of every grouping that follows the precedence of its operators, and
there is such a grouping.  An operand is read up to its end in front of whatever may follow it in a
chain: it is closed by a bracket or a quote there, or it is a name or a number, which end at a blank.
Groupings are then read level by level, the operators of one level along the left operands.
-/

namespace NodeQuery.Expr

open Text (Reader ParseTree)
open Text.Reader
open Text.Grammar

variable {text rest : List Char} {value : Expr} {limit : Nat}

/-- Nothing, or a blank. -/
def Apart (rest : List Char) : Prop := Leaves (fun c => !isBlank c) rest

theorem Apart.leaves (apart : Apart rest) {class_ : Char → Bool}
    (solid : ∀ c, isBlank c = true → class_ c = false) : Leaves class_ rest :=
  fun c front => solid c (by simpa using apart c front)

theorem Apart.extends_token (apart : Apart rest) {expected : String}
    (solid : expected.toList.all (!isBlank ·) = true) : Extends rest (token expected) := by
  apply Text.Reader.extends_token
  intro c member
  apply apart.leaves
  intro blank isBlank_
  have unlike := List.all_eq_true.mp solid c member
  rw [beq_eq_false_iff_ne]
  rintro rfl
  simp [isBlank_] at unlike

theorem extends_name (apart : Apart rest) : Extends rest name := by
  have letters : Leaves isNameChar rest := apart.leaves fun c blank => by
    rcases isBlank_cases blank with rfl | rfl | rfl | rfl <;> rfl
  have simple : Extends rest simpleName :=
    (extends_run letters).bind fun taken => (extends_guard _).bind fun _ => extends_pure taken
  have second : Extends rest (do token ":"; simpleName) := (apart.extends_token rfl).bind fun _ => simple
  refine simple.bind fun first => second.maybe.bind fun found => ?_
  cases found with
  | none => exact extends_pure _
  | some others => exact extends_pure _

/-- What the grammar derives is what is read, if it is built into one value. -/
theorem read_of_derives {rule : Rule} {reader : Reader Expr} {bound : Nat} {trees : List (ParseTree Rule)}
    (reflects : Reflects grammar [] bound .spaced (.rule rule) reader (Builds rule))
    (fits : text.length < bound) (derives : grammar.Derives [] .spaced (.rule rule) text (some (trees, rest)))
    {used : List Char} (built : Builds rule value used trees) : reader text = some (value, rest) := by
  cases read : reader text with
  | none => cases derives.unique (reflects.refuses _ fits read)
  | some taken =>
      rcases reflects.takes _ taken.1 taken.2 fits read with ⟨_, others, _, derivesToo, builtToo⟩
      cases derives.unique derivesToo
      rcases built.one with ⟨tree, rfl, builds⟩
      rcases builtToo.one with ⟨other, same, buildsToo⟩
      cases same
      cases builds.symm.trans buildsToo
      rfl

/-- What is closed at its end is read the same in front of any other text. -/
theorem primary_append_of_ends (given : primary expr text = some (value, []))
    (ends : Place.front.Ends text) (fits : (text ++ rest).length ≤ limit) :
    primary (exprUpTo limit) (text ++ rest) = some (value, rest) := by
  have alone : Reflects grammar [] (text.length + 1) .spaced (.rule .primaryExpr) (primary expr)
      (Builds .primaryExpr) := reflects_primary reflects_expr
  have within : Reflects grammar [] (limit + 1) .spaced (.rule .primaryExpr) (primary (exprUpTo limit))
      (Builds .primaryExpr) := reflects_primary (reflects_exprUpTo limit)
  rcases alone.takes text value [] (Nat.lt_succ_self _) given with ⟨used, trees, _, derives, built⟩
  exact read_of_derives within (Nat.lt_succ_of_le fits) (derives_primary_append derives ends [] rest)
    built

/-- An operand is read the same where an operator follows it behind a blank. -/
theorem primary_append (given : primary expr text = some (value, [])) (apart : Apart rest)
    (fits : (text ++ rest).length ≤ limit) :
    primary (exprUpTo limit) (text ++ rest) = some (value, rest) := by
  have closed {rule : Rule} (among : rule ∈ [Rule.parenExpr, .functionCall, .stringLiteral])
      {reader : Reader Expr} {meaning : Meaning Rule Expr}
      (reflects : Reflects grammar [] (text.length + 1) .spaced (.rule rule) reader meaning)
      (taken : reader text = some (value, [])) :
      primary (exprUpTo limit) (text ++ rest) = some (value, rest) := by
    rcases reflects.takes text value [] (Nat.lt_succ_self _) taken with ⟨_, _, _, derives, _⟩
    exact primary_append_of_ends given (ends_of_closed among derives) fits
  have variable_ : Extends rest (do token "$"; let bound ← name; pure (Expr.var bound)) :=
    (apart.extends_token rfl).bind fun _ => (extends_name apart).bind fun _ => extends_pure _
  have alternatives := given
  rw [primary, orElse_apply, Option.or_eq_some_iff] at alternatives
  rcases alternatives with bound | ⟨unbound, alternatives⟩
  · rw [primary]
    apply orElse_of_some
    rw [variable_ text, bound]
    rfl
  rw [orElse_apply, Option.or_eq_some_iff] at alternatives
  rcases alternatives with bracketed | ⟨_, alternatives⟩
  · exact closed (by decide) (reflects_parenthesised reflects_expr) bracketed
  rw [orElse_apply, Option.or_eq_some_iff] at alternatives
  rcases alternatives with between | ⟨_, alternatives⟩
  · have string_ : Reflects grammar [] (text.length + 1) .spaced (.rule .stringLiteral)
        (do let content ← quoted; pure (Expr.string content)) (fun _ _ _ => True) :=
      reflects_quoted.map fun _ _ _ _ => trivial
    exact closed (by decide) string_ between
  rw [orElse_apply, Option.or_eq_some_iff] at alternatives
  rcases alternatives with counted | ⟨_, call⟩
  · cases digits : numeral text with
    | none =>
        rw [bind_of_none digits] at counted
        cases counted
    | some taken =>
        rcases taken with ⟨amount, left⟩
        rw [bind_of_some digits] at counted
        cases counted
        have ended : Leaves Char.isDigit rest := apart.leaves fun c blank => by
          rcases isBlank_cases blank with rfl | rfl | rfl | rfl <;> rfl
        have unpointed : Leaves (· == '.') rest := apart.leaves fun c blank => by
          rcases isBlank_cases blank with rfl | rfl | rfl | rfl <;> rfl
        apply primary_of_numeral
        rw [extends_numeral ended unpointed text, digits]
        rfl
  · exact closed (by decide) (reflects_functionCall reflects_expr) call

theorem Atom.head (atom : Atom) :
    ∃ c others, atom.text = c :: others ∧ isBlank c = false ∧ c ≠ '-' ∧ c ≠ '/' := by
  have whole := atom.whole
  have solid := atom.solid
  cases spelled : atom.text with
  | nil =>
      rw [spelled] at whole
      cases whole
  | cons c others =>
      rw [spelled] at whole solid
      refine ⟨c, others, rfl, solid c rfl, ?_, ?_⟩
      · rintro rfl
        cases whole
      · rintro rfl
        cases whole

/-- An operand is read in front of an operator. -/
theorem Atom.reads (atom : Atom) (apart : Apart rest) (ends : EndsPath rest)
    (fits : (atom.text ++ rest).length ≤ limit) :
    Reads (path (exprUpTo limit)) (atom.text ++ rest) atom.value rest := by
  have unslashed : Leaves (· == '/') (atom.text ++ rest) := by
    rcases atom.head with ⟨c, others, spelled, _, _, slashless⟩
    rw [spelled]
    exact leaves_cons (beq_eq_false_iff_ne.mpr slashless)
  exact path_of_primary unslashed (primary_append atom.whole apart fits) ends

def BinaryOperator.level : BinaryOperator → Nat
  | .connective operator => operator.level
  | .comparison operator => operator.level
  | .arithmetic operator => operator.level
  | .union => 0

/-- How loosely the operators of a level bind. -/
def levelLooseness : Nat → Nat
  | 0 => 1
  | level + 1 => level + 3

theorem BinaryOperator.isOperator (operator : BinaryOperator) :
    IsOperator operator.level operator.sign operator.combine := by
  cases operator with
  | connective operator => exact isOperator_connective operator
  | comparison operator => exact isOperator_comparison operator
  | arithmetic operator => exact isOperator_arithmetic operator
  | union => exact isOperator_union

theorem BinaryOperator.levelLooseness_level (operator : BinaryOperator) :
    levelLooseness operator.level = operator.looseness := by
  rcases operator with operator | operator | operator | _
  · cases operator <;> rfl
  · cases operator <;> rfl
  · cases operator <;> rfl
  · rfl

theorem BinaryOperator.looseness_pos (operator : BinaryOperator) : 0 < operator.looseness := by
  rw [← operator.levelLooseness_level]
  cases operator.level <;> exact Nat.succ_pos _

theorem BinaryOperator.looseness_le (operator : BinaryOperator) : operator.looseness ≤ 8 := by
  rcases operator with operator | operator | operator | _
  · cases operator <;> decide
  · cases operator <;> decide
  · cases operator <;> decide
  · decide

theorem BinaryOperator.eq_union (operator : BinaryOperator) (tight : operator.looseness < minusLooseness) :
    operator = .union := by
  rcases operator with operator | operator | operator | _
  · cases operator <;> exact absurd tight (by decide)
  · cases operator <;> exact absurd tight (by decide)
  · cases operator <;> exact absurd tight (by decide)
  · rfl

theorem BinaryOperator.looseness_ne_minus (operator : BinaryOperator) :
    operator.looseness ≠ minusLooseness := by
  rw [← operator.levelLooseness_level, minusLooseness]
  cases operator.level <;> simp only [levelLooseness] <;> omega

theorem levelLooseness_inj {level other : Nat} (same : levelLooseness level = levelLooseness other) :
    level = other := by
  cases level <;> cases other <;> simp only [levelLooseness] at same <;> omega

/-- What can follow an operand of a level: the end of the text, or blanks with no operator of a tighter
level and no more of a path behind them. -/
structure EndsLevel (level : Nat) (rest : List Char) : Prop where
  apart : Apart rest
  path : EndsPath rest
  stops : ∀ below < level, levelOperator below (dropBlanks rest) = none

theorem endsLevel_nil (level : Nat) : EndsLevel level [] where
  apart := leaves_nil _
  path := leaves_nil _
  stops below _ := Closes.nil.levelOperator below

theorem EndsLevel.mono {level lower : Nat} (ends : EndsLevel level rest) (le : lower ≤ level) :
    EndsLevel lower rest where
  apart := ends.apart
  path := ends.path
  stops below less := ends.stops below (Nat.lt_of_lt_of_le less le)

theorem dropBlanks_append {gap : List Char} (blank : ∀ c ∈ gap, isBlank c = true)
    (solid : Leaves isBlank text) : dropBlanks (gap ++ text) = text :=
  (takeWhile_append_of_leaves blank solid).2

namespace Joint

variable (joint : Joint) (next : List Char)

/-- The text of an operator with blanks around it, in front of its right operand. -/
abbrev chars : List Char := joint.left ++ (joint.operator.sign.toList ++ (joint.right ++ next))

theorem right_begins : ∃ c others, joint.right = c :: others ∧ isBlank c = true := by
  cases spelled : joint.right with
  | nil => exact absurd spelled joint.parted.2
  | cons c others => exact ⟨c, others, rfl, joint.blank c (by simp [spelled])⟩

theorem dropBlanks_chars :
    dropBlanks (joint.chars next) = joint.operator.sign.toList ++ (joint.right ++ next) := by
  apply dropBlanks_append fun c member => joint.blank c (List.mem_append_left _ member)
  rcases joint.operator.isOperator.begins with ⟨c, others, spelled, plain⟩
  rw [spelled]
  simp only [goesOn, Bool.or_eq_false_iff] at plain
  exact leaves_cons plain.1.1

theorem chars_append (rest : List Char) : joint.chars next ++ rest = joint.chars (next ++ rest) := by
  simp only [chars, List.append_assoc]

variable {next} in
theorem dropBlanks_right (solid : Leaves isBlank next) : dropBlanks (joint.right ++ next) = next :=
  dropBlanks_append (fun c member => joint.blank c (List.mem_append_right _ member)) solid

theorem taken : levelOperator joint.operator.level (dropBlanks (joint.chars next)) =
    some (joint.operator.combine, joint.right ++ next) := by
  rcases joint.right_begins with ⟨c, others, spelled, blank⟩
  rw [dropBlanks_chars, spelled]
  exact joint.operator.isOperator.taken c blank (others ++ next)

theorem endsLevel : EndsLevel joint.operator.level (joint.chars next) where
  apart := by
    cases spelled : joint.left with
    | nil => exact absurd spelled joint.parted.1
    | cons c others =>
        have blank := joint.blank c (by simp [spelled])
        unfold chars
        rw [spelled]
        exact leaves_cons (by simp [blank])
  path := by
    unfold EndsPath
    rcases joint.operator.isOperator.begins with ⟨c, others, spelled, plain⟩
    rw [dropBlanks_chars, spelled]
    simp only [goesOn, Bool.or_eq_false_iff] at plain
    exact leaves_cons (by simp [plain.2])
  stops below less := by
    rcases joint.right_begins with ⟨c, others, spelled, blank⟩
    rw [dropBlanks_chars, spelled]
    exact joint.operator.isOperator.refused below less c blank (others ++ next)

end Joint

/-!
## Reading groupings

A grouping is read level by level.  The operators of one level are read along the left operands, and a
right operand is left to the levels below.
-/

namespace Grouping

def chars (grouping : Grouping) : List Char := grouping.pieces.flatMap Piece.chars

theorem chars_operand (atom : Atom) : (operand atom).chars = atom.text := by
  simp [chars, pieces, Piece.chars]

theorem chars_negated (minus : Minus) (inner : Grouping) :
    (negated minus inner).chars = '-' :: (minus.gap ++ inner.chars) := by
  simp [chars, pieces, Piece.chars]

theorem chars_joined (left : Grouping) (joint : Joint) (right : Grouping) :
    (joined left joint right).chars = left.chars ++ joint.chars right.chars := by
  simp [chars, pieces, Piece.chars]

theorem head (grouping : Grouping) :
    ∃ c others, grouping.chars = c :: others ∧ isBlank c = false := by
  induction grouping with
  | operand atom =>
      rcases atom.head with ⟨c, others, spelled, solid, _⟩
      exact ⟨c, others, by rw [chars_operand, spelled], solid⟩
  | negated minus inner => exact ⟨'-', _, chars_negated minus inner, rfl⟩
  | joined left joint right ih _ =>
      rcases ih with ⟨c, others, spelled, solid⟩
      exact ⟨c, _, by rw [chars_joined, spelled, List.cons_append], solid⟩

theorem solid (grouping : Grouping) (rest : List Char) : Leaves isBlank (grouping.chars ++ rest) := by
  rcases grouping.head with ⟨c, others, spelled, solid⟩
  rw [spelled]
  exact leaves_cons solid

theorem looseness_le (grouping : Grouping) : grouping.looseness ≤ 8 := by
  cases grouping with
  | operand => exact Nat.zero_le 8
  | negated => exact Nat.le_add_left 2 6
  | joined _ joint _ => exact joint.operator.looseness_le

variable {grouping : Grouping}

/-- A union of operands has no minus sign in front of it. -/
theorem FollowsPrecedence.unsigned (follows : grouping.FollowsPrecedence)
    (tight : grouping.looseness < minusLooseness) (rest : List Char) : Unsigned (grouping.chars ++ rest) := by
  refine ⟨grouping.solid rest, ?_⟩
  induction follows generalizing rest with
  | operand atom =>
      rcases atom.head with ⟨c, others, spelled, _, unsigned, _⟩
      rw [chars_operand, spelled]
      exact leaves_cons (beq_eq_false_iff_ne.mpr unsigned)
  | negated => exact absurd tight (Nat.lt_irrefl minusLooseness)
  | joined _ _ notLooser _ ih _ =>
      rw [chars_joined, List.append_assoc]
      exact ih (Nat.lt_of_le_of_lt notLooser tight) _

/-- A grouping is read by what reads the operands of a level. -/
def ReadAt (limit level : Nat) (grouping : Grouping) : Prop :=
  ∀ rest, EndsLevel level rest → (grouping.chars ++ rest).length ≤ limit →
    Reads (levelOperand (exprUpTo limit) level) (grouping.chars ++ rest) grouping.expr rest

/-- What reads the groupings below the operators of a level as operands, reads those of the level along
with the operations that follow. -/
theorem FollowsPrecedence.reads_operations {level : Nat}
    (operands : ∀ inner : Grouping, inner.FollowsPrecedence → inner.looseness < levelLooseness level →
      ReadAt limit level inner)
    (follows : grouping.FollowsPrecedence) (le : grouping.looseness ≤ levelLooseness level)
    {rest last : List Char} {others : List (Operator × Expr)} (ends : EndsLevel level rest)
    (fits : (grouping.chars ++ rest).length ≤ limit)
    (operations : Operations (levelOperand (exprUpTo limit) level) (levelOperator level) rest others last) :
    Reads (leftGrouped (levelOperand (exprUpTo limit) level) (levelOperator level)) (grouping.chars ++ rest)
      (others.foldl (fun left (combine, right) => combine left right) grouping.expr) last := by
  induction follows generalizing rest others with
  | operand atom =>
      have tight : (Grouping.operand atom).looseness < levelLooseness level := by
        cases level <;> exact Nat.succ_pos _
      exact leftGrouped_of_operations (operands _ (.operand atom) tight rest ends fits) operations
  | negated inner tight _ =>
      have below : minusLooseness < levelLooseness level := by
        cases level with
        | zero =>
            have impossible : minusLooseness ≤ levelLooseness 0 := le
            exact absurd impossible (by decide)
        | succ level => exact Nat.le_add_left 3 level
      exact leftGrouped_of_operations (operands _ (.negated inner tight) below rest ends fits) operations
  | @joined left right joint leftFollows rightFollows notLooser tighter leftIh _ =>
      rcases Nat.lt_or_eq_of_le le with below | same
      · exact leftGrouped_of_operations
          (operands _ (.joined leftFollows rightFollows notLooser tighter) below rest ends fits) operations
      · obtain rfl : level = joint.operator.level :=
          levelLooseness_inj (same.symm.trans joint.operator.levelLooseness_level.symm)
        rw [chars_joined, List.append_assoc, joint.chars_append] at fits ⊢
        have rightEnds := joint.dropBlanks_right (right.solid rest)
        have shorter : rest.length < (dropBlanks (joint.chars (right.chars ++ rest))).length := by
          rcases right.head with ⟨c, behind, spelled, _⟩
          simp only [joint.dropBlanks_chars, spelled, List.length_append, List.length_cons]
          omega
        have rightFits : (right.chars ++ rest).length ≤ limit := by
          simp only [Joint.chars, List.length_append] at fits ⊢
          omega
        have rightReads := operands right rightFollows (tighter.trans_eq same) rest ends rightFits
        rw [← rightEnds] at rightReads
        exact leftIh (notLooser.trans_eq same) (joint.endsLevel _) fits
          (.more (operation_reads (joint.taken _) rightReads) shorter operations)

/-- A grouping that nothing holds together is an operand. -/
theorem FollowsPrecedence.readAt_operand (follows : grouping.FollowsPrecedence)
    (bare : grouping.looseness ≤ 0) : ReadAt limit 0 grouping := by
  intro rest ends fits
  cases follows with
  | operand atom =>
      rw [chars_operand] at fits ⊢
      exact atom.reads ends.apart ends.path fits
  | negated => exact absurd bare (Nat.not_succ_le_zero 1)
  | @joined _ _ joint => exact absurd bare (Nat.not_le_of_lt joint.operator.looseness_pos)

/-- Unions of operands are read by what reads paths with bars between them. -/
theorem FollowsPrecedence.reads_union (follows : grouping.FollowsPrecedence)
    (tight : grouping.looseness < minusLooseness) {rest : List Char} (ends : EndsLevel 1 rest)
    (fits : (grouping.chars ++ rest).length ≤ limit) :
    Reads (unionLevel (exprUpTo limit)) (grouping.chars ++ rest) grouping.expr rest := by
  have le : grouping.looseness ≤ levelLooseness 0 := Nat.le_of_lt_succ tight
  refine reads_operations ?_ follows le (ends.mono (Nat.zero_le 1)) fits
    (.done (operation_stops (ends.stops 0 Nat.one_pos)))
  exact fun inner innerFollows bare => innerFollows.readAt_operand (Nat.le_of_lt_succ bare)

theorem negate_foldl (signs : List Unit) (operand : Expr) :
    signs.foldl (fun inner _ => .negate inner) (.negate operand) =
      Expr.negate (signs.foldl (fun inner _ => .negate inner) operand) := by
  induction signs generalizing operand with
  | nil => rfl
  | cons _ signs ih => exact ih (.negate operand)

/-- A text is read as minus signs and a union behind them. -/
def ReadsSigned (limit : Nat) (text : List Char) (value : Expr) (rest : List Char) : Prop :=
  ∃ signs middle operand, Items (token "-") text signs middle ∧
    Reads (unionLevel (exprUpTo limit)) (dropBlanks middle) operand rest ∧
    value = signs.foldl (fun inner _ => .negate inner) operand

section
variable {gap : List Char} (blank : ∀ c ∈ gap, isBlank c = true)
include blank

theorem FollowsPrecedence.readsSigned_union (follows : grouping.FollowsPrecedence)
    (tight : grouping.looseness < minusLooseness) {rest : List Char} (ends : EndsLevel 1 rest)
    (fits : (grouping.chars ++ rest).length ≤ limit) :
    ReadsSigned limit (gap ++ (grouping.chars ++ rest)) grouping.expr rest := by
  have skipped := dropBlanks_append blank (grouping.solid rest)
  have stops := (follows.unsigned tight rest).stops
  have reads := follows.reads_union tight ends fits
  rw [dropBlanks_of_leaves (grouping.solid rest), ← skipped] at stops
  rw [← skipped] at reads
  exact ⟨[], _, _, .done stops, reads, rfl⟩

/-- Minus signs in front of a union stand for negations of it. -/
theorem FollowsPrecedence.readsSigned (follows : grouping.FollowsPrecedence)
    (tight : grouping.looseness ≤ minusLooseness) {rest : List Char} (ends : EndsLevel 1 rest)
    (fits : (grouping.chars ++ rest).length ≤ limit) :
    ReadsSigned limit (gap ++ (grouping.chars ++ rest)) grouping.expr rest := by
  induction follows generalizing gap with
  | operand atom => exact readsSigned_union blank (.operand atom) (Nat.succ_pos 1) ends fits
  | @joined _ _ joint leftFollows rightFollows notLooser tighter =>
      have below := Nat.lt_of_le_of_ne tight joint.operator.looseness_ne_minus
      exact readsSigned_union blank (.joined leftFollows rightFollows notLooser tighter) below ends fits
  | @negated minus inner _ innerTight ih =>
      rw [chars_negated, List.cons_append, List.append_assoc] at fits ⊢
      have innerFits : (inner.chars ++ rest).length ≤ limit := by
        simp only [List.length_cons, List.length_append] at fits ⊢
        omega
      rcases ih minus.blank innerTight innerFits with ⟨signs, middle, operand, items, reads, same⟩
      have sign : token "-" ('-' :: (minus.gap ++ (inner.chars ++ rest))) =
          some ((), minus.gap ++ (inner.chars ++ rest)) := rfl
      have skipped : dropBlanks (gap ++ '-' :: (minus.gap ++ (inner.chars ++ rest))) =
          '-' :: (minus.gap ++ (inner.chars ++ rest)) := dropBlanks_append blank (leaves_cons rfl)
      rw [← skipped] at sign
      refine ⟨() :: signs, middle, operand, .more (Reads.of_eq sign) ?_ items, reads, ?_⟩
      · rw [skipped]
        exact Nat.lt_succ_self _
      · rw [expr, same]
        exact (negate_foldl signs operand).symm

end

/-- How loose the operands of a level may be. -/
def operandLooseness : Nat → Nat
  | 0 => 0
  | level + 1 => level + 2

/-- A grouping is read at every level whose operands may be as loose. -/
theorem FollowsPrecedence.readAt {level : Nat} (known : level ≤ 7) (follows : grouping.FollowsPrecedence)
    (le : grouping.looseness ≤ operandLooseness level) : ReadAt limit level grouping := by
  induction level generalizing grouping with
  | zero => exact follows.readAt_operand le
  | succ level ih =>
      intro rest ends fits
      cases level with
      | zero =>
          rcases follows.readsSigned (fun _ member => absurd member List.not_mem_nil) le ends fits with
            ⟨signs, middle, operand, items, reads, same⟩
          have given := unaryLevel_of_signs items reads
          rw [← same, List.nil_append, dropBlanks_of_leaves (grouping.solid rest)] at given
          exact given
      | succ level =>
          have operands (inner : Grouping) (innerFollows : inner.FollowsPrecedence)
              (tighter : inner.looseness < levelLooseness (level + 1)) : ReadAt limit (level + 1) inner :=
            ih (Nat.le_of_succ_le known) innerFollows (Nat.le_of_lt_succ tighter)
          have reads := reads_operations operands follows le (ends.mono (Nat.le_succ _)) fits
            (.done (operation_stops (ends.stops (level + 1) (Nat.lt_succ_self _))))
          exact levelOperand_succ known (fun impossible => absurd impossible (Nat.succ_ne_zero level)) reads

/-!
## There is a grouping

A chain is grouped from the left: an operator that comes next goes into the right operands of all looser
ones.
-/

/-- A grouping with one more operator and operand behind it.  The operator goes to the right operand of
every looser one. -/
def extend : Grouping → Joint → Grouping → Grouping
  | .operand atom, joint, right => .joined (.operand atom) joint right
  | .negated minus inner, joint, right =>
    if joint.operator.looseness < minusLooseness then .negated minus (inner.extend joint right)
    else .joined (.negated minus inner) joint right
  | .joined left other inner, joint, right =>
    if joint.operator.looseness < other.operator.looseness then
      .joined left other (inner.extend joint right)
    else .joined (.joined left other inner) joint right

variable (joint : Joint) (right : Grouping)

theorem pieces_extend (left : Grouping) :
    (left.extend joint right).pieces = left.pieces ++ .operator joint :: right.pieces := by
  fun_induction extend left joint right with
  | case1 | case3 | case5 => rfl
  | case2 minus inner _ _ _ ih => simp only [pieces, ih, List.cons_append]
  | case4 left other inner _ _ _ ih => simp only [pieces, ih, List.append_assoc, List.cons_append]

theorem looseness_extend (left : Grouping) :
    (left.extend joint right).looseness ≤ max left.looseness joint.operator.looseness := by
  unfold extend
  split
  · exact Nat.le_max_right _ _
  · split
    · exact Nat.le_max_left _ _
    · exact Nat.le_max_right _ _
  · split
    · exact Nat.le_max_left _ _
    · exact Nat.le_max_right _ _

variable {joint right}

theorem FollowsPrecedence.extend {left : Grouping} (follows : left.FollowsPrecedence)
    (rightFollows : right.FollowsPrecedence) (tighter : right.looseness < joint.operator.looseness) :
    (left.extend joint right).FollowsPrecedence := by
  induction follows with
  | operand atom => exact .joined (.operand atom) rightFollows (Nat.zero_le _) tighter
  | @negated minus inner innerFollows tight ih =>
      unfold Grouping.extend
      split
      · rename_i below
        have bound := looseness_extend joint right inner
        exact .negated ih (by omega)
      · rename_i notBelow
        exact .joined (.negated innerFollows tight) rightFollows (Nat.not_lt.mp notBelow) tighter
  | @joined left inner other leftFollows innerFollows notLooser innerTighter _ ih =>
      unfold Grouping.extend
      split
      · rename_i below
        have bound := looseness_extend joint right inner
        exact .joined leftFollows ih notLooser (by omega)
      · rename_i notBelow
        exact .joined (.joined leftFollows innerFollows notLooser innerTighter) rightFollows
          (Nat.not_lt.mp notBelow) tighter

end Grouping

namespace SignedAtom

/-- The grouping of an operand with the minus signs in front of it. -/
def grouping (operand : SignedAtom) : Grouping := operand.signs.foldr .negated (.operand operand.atom)

theorem pieces_grouping (operand : SignedAtom) : operand.grouping.pieces = operand.pieces := by
  rcases operand with ⟨signs, atom⟩
  induction signs with
  | nil => rfl
  | cons minus signs ih => exact congrArg (Piece.sign minus :: ·) ih

theorem grouping_follows (operand : SignedAtom) :
    operand.grouping.FollowsPrecedence ∧ operand.grouping.looseness ≤ minusLooseness := by
  rcases operand with ⟨signs, atom⟩
  induction signs with
  | nil => exact ⟨.operand atom, Nat.zero_le minusLooseness⟩
  | cons minus signs ih => exact ⟨.negated ih.1 ih.2, Nat.le_refl minusLooseness⟩

end SignedAtom

/-- An operand behind an operator binds tighter than the operator. -/
theorem Link.looseness_lt (link : Link) :
    link.operand.grouping.looseness < link.joint.operator.looseness := by
  rcases Nat.lt_or_gt_of_ne link.joint.operator.looseness_ne_minus with below | above
  · have bare : link.operand.grouping.looseness = 0 := by
      rw [SignedAtom.grouping, link.unsigned (link.joint.operator.eq_union below)]
      rfl
    rw [bare]
    exact link.joint.operator.looseness_pos
  · exact Nat.lt_of_le_of_lt link.operand.grouping_follows.2 above

/-- Every chain has a grouping that follows the precedence of its operators. -/
theorem Chain.exists_grouping (chain : Chain) :
    ∃ grouping : Grouping, grouping.FollowsPrecedence ∧ grouping.pieces = chain.pieces := by
  have goesOn (left : Grouping) (follows : left.FollowsPrecedence) (links : List Link) :
      ∃ grouping : Grouping, grouping.FollowsPrecedence ∧
        grouping.pieces = left.pieces ++ links.flatMap Link.pieces := by
    induction links generalizing left with
    | nil => exact ⟨left, follows, (List.append_nil _).symm⟩
    | cons link links ih =>
        rcases ih (left.extend link.joint link.operand.grouping)
          (follows.extend link.operand.grouping_follows.1 link.looseness_lt) with ⟨grouping, holds, same⟩
        refine ⟨grouping, holds, ?_⟩
        rw [same, Grouping.pieces_extend, link.operand.pieces_grouping, List.flatMap_cons, Link.pieces,
          List.append_assoc]
  rcases goesOn _ chain.first.grouping_follows.1 chain.others with ⟨grouping, follows, same⟩
  rw [chain.first.pieces_grouping] at same
  exact ⟨grouping, follows, same⟩

/-- A chain of operators is read, and the expression that is read is that of every grouping of its pieces
that follows the precedence of the operators and groups from the left where they bind alike. -/
theorem parse?_chain (chain : Chain) :
    (∃ grouping : Grouping, grouping.FollowsPrecedence ∧ grouping.pieces = chain.pieces) ∧
    ∀ grouping : Grouping, grouping.FollowsPrecedence → grouping.pieces = chain.pieces →
      parse? chain.text = some grouping.expr := by
  refine ⟨chain.exists_grouping, fun grouping follows same => ?_⟩
  have spelled : chain.text.toList = grouping.chars := by
    rw [Chain.text, String.toList_ofList, ← same, Grouping.chars]
  have le : grouping.looseness ≤ Grouping.operandLooseness 7 := grouping.looseness_le
  have reads := follows.readAt (Nat.le_refl 7) le [] (endsLevel_nil 7)
    (Nat.le_of_eq (congrArg List.length (List.append_nil _)))
  apply parse?_of_orLevel
  · rw [spelled, ← List.append_nil grouping.chars]
    exact grouping.solid []
  · rw [List.append_nil, ← spelled] at reads
    exact reads

/-- Signs in front of a union and of an operand, a product, a difference and a comparison in one chain. -/
theorem parse?_chain_mixed :
    parse? "- $a | f() * -$b - 'c' <= ($d or $e)" = some (.comparison .le (.arithmetic .sub
      (.arithmetic .mul (.negate (.union (.var "a") (.call "f" []))) (.negate (.var "b")))
        (.string "c")) (.connective .or (.var "d") (.var "e"))) := by
  let a : Atom := ⟨"$a".toList, .var "a", by simp [isBlank], by cbv⟩
  let b : Atom := ⟨"$b".toList, .var "b", by simp [isBlank], by cbv⟩
  let c : Atom := ⟨"'c'".toList, .string "c", by simp [isBlank], by cbv⟩
  let f : Atom := ⟨"f()".toList, .call "f" [], by simp [isBlank], by cbv⟩
  let inner : Atom :=
    ⟨"($d or $e)".toList, .connective .or (.var "d") (.var "e"), by simp [isBlank], by cbv⟩
  let blank : Minus := ⟨[' '], by simp [isBlank]⟩
  let bare : Minus := ⟨[], by simp⟩
  let joint (operator : BinaryOperator) : Joint := ⟨operator, [' '], [' '], by decide, by simp [isBlank]⟩
  let chain : Chain := ⟨⟨[blank], a⟩, [⟨joint .union, ⟨[], f⟩, fun _ => rfl⟩,
    ⟨joint (.arithmetic .mul), ⟨[bare], b⟩, fun bar => by cases bar⟩,
    ⟨joint (.arithmetic .sub), ⟨[], c⟩, fun _ => rfl⟩,
    ⟨joint (.comparison .le), ⟨[], inner⟩, fun _ => rfl⟩]⟩
  let union : Grouping := .joined (.operand a) (joint .union) (.operand f)
  let product : Grouping := .joined (.negated blank union) (joint (.arithmetic .mul))
    (.negated bare (.operand b))
  let grouping : Grouping := .joined (.joined product (joint (.arithmetic .sub)) (.operand c))
    (joint (.comparison .le)) (.operand inner)
  have unionFollows : union.FollowsPrecedence := .joined (.operand a) (.operand f) (by decide) (by decide)
  have productFollows : product.FollowsPrecedence :=
    .joined (.negated unionFollows (by decide)) (.negated (.operand b) (by decide)) (by decide) (by decide)
  have follows : grouping.FollowsPrecedence :=
    .joined (.joined productFollows (.operand c) (by decide) (by decide)) (.operand inner)
      (by decide) (by decide)
  have spelled : chain.text = "- $a | f() * -$b - 'c' <= ($d or $e)" := by decide
  rw [← spelled]
  exact (parse?_chain chain).2 grouping follows rfl

end NodeQuery.Expr

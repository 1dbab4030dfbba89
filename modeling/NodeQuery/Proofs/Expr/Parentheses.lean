import NodeQuery.Proofs.Expr.Grouping
import NodeQuery.Proofs.Expr.Printing

/-!
# Any text in brackets

Whatever text is read as an expression, is read as that expression in parentheses, as the argument of a
function and as a predicate, too.  The closing bracket ends what is read as the end of the text does: no
rule takes it that stands inside the brackets, and no word goes on with it.
-/

namespace NodeQuery.Expr

open Text (Reader)
open Text.Reader
open Text.Grammar

variable {source predicate : String} {text rest : List Char} {value test : Expr} {limit : Nat}

/-- What a text is read as: an expression between blanks. -/
theorem expr_of_parse (read : parse? source = some value) :
    ∃ left, expr (dropBlanks source.toList) = some (value, left) ∧ dropBlanks left = [] := by
  rw [parse?_apply, Option.map_eq_some_iff] at read
  rcases read with ⟨⟨taken, rest⟩, given, rfl⟩
  exact (left_of_finish given).2

section
variable {bracket : Char} (closing : closes bracket = true)
include closing

theorem dropBlanks_append_bracket (text rest : List Char) :
    dropBlanks (text ++ bracket :: rest) = dropBlanks text ++ bracket :: rest := by
  rw [dropBlanks, List.dropWhile_append]
  split
  · rename_i none
    rw [dropBlanks, List.isEmpty_iff.mp none]
    exact List.dropWhile_cons_of_neg (by simp [not_isBlank_of_closes closing])
  · rfl

/-- In front of a closing bracket as much is read as at the end of a text. -/
theorem exprUpTo_closes {left : List Char} (given : expr text = some (value, left))
    (finished : dropBlanks left = []) (fits : (text ++ bracket :: rest).length < limit) :
    exprUpTo limit (text ++ bracket :: rest) = some (value, left ++ bracket :: rest) := by
  have alone : Reflects grammar [] (text.length + 1) .spaced (.rule .expr) expr (Builds .expr) :=
    reflects_expr
  rcases alone.takes text value left (Nat.lt_succ_self _) given with ⟨used, trees, _, derives, built⟩
  have runs : Runs .spaced (.rule .expr) (.inside 1) (.inside 1) := runs_inner rfl
  have ends : (Place.inside 1).Ends (text ++ [bracket]) := by
    have blank : ∀ c ∈ left, isPlain c = true := fun c member =>
      plain_of_isBlank (List.dropWhile_eq_nil_iff.mp finished c member)
    have open_ : Place.inside 1 ≠ .inside 0 := nofun
    rw [runs.ends_iff derives rfl, Place.ends_append_plain open_ blank]
    exact ⟨open_, step_closing closing 0⟩
  exact read_of_derives (reflects_exprUpTo limit) fits
    (runs.derives_append derives (.bracket closing nofun) ends [] rest) built

/-- What a whole text is read as, is read from it in front of a closing bracket, with the blanks around
it. -/
theorem exprUpTo_of_parse (read : parse? source = some value)
    (fits : (source.toList ++ bracket :: rest).length < limit) :
    ∃ left, exprUpTo limit (dropBlanks (source.toList ++ bracket :: rest)) = some (value, left) ∧
      dropBlanks left = bracket :: rest := by
  rcases expr_of_parse read with ⟨left, given, finished⟩
  have shorter := length_dropBlanks_le source.toList
  have room : (dropBlanks source.toList ++ bracket :: rest).length < limit := by
    simp only [List.length_append, List.length_cons] at fits ⊢
    omega
  refine ⟨left ++ bracket :: rest, ?_, ?_⟩
  · rw [dropBlanks_append_bracket closing]
    exact exprUpTo_closes closing given finished room
  · rw [dropBlanks_append_bracket closing, finished, List.nil_append]

end

/-- What a text is read as, is read from it in parentheses, in front of any other text. -/
theorem primary_enclosed (read : parse? source = some value)
    (fits : (parenthesised source.toList ++ rest).length ≤ limit) :
    primary (exprUpTo limit) (parenthesised source.toList ++ rest) = some (value, rest) := by
  rw [parenthesised, List.cons_append, List.append_assoc, List.singleton_append] at fits ⊢
  rcases exprUpTo_of_parse rfl read fits with ⟨left, given, closed⟩
  exact primary_of_parentheses (Reads.of_eq given) closed

/-- What a text is read as, is read from it in square brackets as a predicate. -/
theorem predicate_enclosed (read : parse? source = some value)
    (fits : (source.toList ++ ']' :: rest).length < limit) :
    Expr.predicate (exprUpTo limit) ('[' :: (source.toList ++ ']' :: rest)) = some (value, rest) := by
  rcases exprUpTo_of_parse rfl read fits with ⟨left, given, closed⟩
  exact predicate_of_brackets (Reads.of_eq given) closed

/-- What a text is read as, is the argument of a call that has the text in its parentheses. -/
theorem primary_enclosed_argument {function : String} (named : IsQualifiedName function.toList)
    (callable : function ∉ testWords) (read : parse? source = some value)
    (fits : (source.toList ++ ')' :: rest).length < limit) :
    primary (exprUpTo limit) (function.toList ++ '(' :: (source.toList ++ ')' :: rest)) =
      some (.call function [value], rest) := by
  rcases exprUpTo_of_parse rfl read fits with ⟨left, given, closed⟩
  have last : Items (afterComma (exprUpTo limit)) left [] left := by
    apply Items.done
    rw [closed]
    rfl
  have call := functionCall_of_arguments named (String.ofList_toList ▸ callable) (Reads.of_eq given)
    last closed
  rw [primary_of_name _ named, call, String.ofList_toList]

/-- A text that is read up to its end as a path, of whatever kind. -/
theorem parse?_of_path (unsigned : Unsigned source.toList)
    (reads : Reads (path (exprUpTo source.toList.length)) source.toList value []) :
    parse? source = some value :=
  parse?_of_orLevel unsigned.1 (levelOperand_climb (Nat.zero_le 7) (Nat.le_refl 7)
    (fun _ => unsigned) reads fun below _ _ => Closes.nil.levelOperator below)

theorem unsigned_parenthesised (text rest : List Char) : Unsigned (parenthesised text ++ rest) :=
  ⟨leaves_cons rfl, leaves_cons rfl⟩

/-- A text in parentheses with a predicate behind it filters what the text is read as. -/
theorem parse?_enclosed_filter (read : parse? source = some value)
    (tested : parse? predicate = some test) :
    parse? ("(" ++ source ++ ")[" ++ predicate ++ "]") = some (.filter value [test]) := by
  have spelled : ("(" ++ source ++ ")[" ++ predicate ++ "]").toList =
      parenthesised source.toList ++ '[' :: (predicate.toList ++ [']']) := by
    simp [parenthesised]
  apply parse?_of_path
  · rw [spelled]
    exact unsigned_parenthesised _ _
  rw [spelled]
  generalize length : (parenthesised source.toList ++ '[' :: (predicate.toList ++ [']'])).length = limit
  have start := primary_enclosed read length.le
  have inside : (predicate.toList ++ [']']).length < limit := by
    simp only [← length, List.length_append, List.length_cons]
    omega
  have solid : dropBlanks ('[' :: (predicate.toList ++ [']'])) = '[' :: (predicate.toList ++ [']']) :=
    dropBlanks_of_leaves (leaves_cons rfl)
  have items : Items (Expr.predicate (exprUpTo limit)) ('[' :: (predicate.toList ++ [']'])) [test]
      [] := by
    refine .more ?_ ?_ (.done rfl)
    · rw [solid]
      exact Reads.of_eq (predicate_enclosed tested inside)
    · rw [solid]
      exact Nat.succ_pos _
  exact path_of_filtered (leaves_cons rfl) start items
    (nextSteps_stops (Follows.closing .nil).endsPath) (.inr rfl)

/-- The name of a function with a text in parentheses is a call with what the text is read as. -/
theorem parse?_enclosed_argument {function : String} (named : IsQualifiedName function.toList)
    (callable : function ∉ testWords) (read : parse? source = some value) :
    parse? (function ++ "(" ++ source ++ ")") = some (.call function [value]) := by
  have spelled : (function ++ "(" ++ source ++ ")").toList =
      function.toList ++ '(' :: (source.toList ++ [')']) := by
    simp
  have begins : function.toList ≠ [] := by
    rcases named.head with ⟨c, letters, same, _⟩
    rw [same]
    exact List.cons_ne_nil c letters
  apply parse?_of_path
  · rw [spelled]
    exact ⟨named.solid, named.leaves rfl⟩
  rw [spelled]
  apply path_of_primary (named.leaves rfl) _ (Follows.closing .nil).endsPath
  apply primary_enclosed_argument named callable read
  have filled := List.length_pos_iff.mpr begins
  simp only [List.length_append, List.length_cons]
  omega

/-- A text in parentheses is compared with what stands behind it. -/
theorem parse?_enclosed_comparison (read : parse? source = some value) (operator : Comparison)
    {other : String} {second : Expr} {depth : Nat} (operand : Operand depth other.toList second)
    (shallow : depth ≤ other.toList.length) :
    parse? ("(" ++ source ++ ") " ++ operator.sign ++ " " ++ other) =
      some (.comparison operator value second) := by
  have isOperator := isOperator_comparison operator
  have spelled : ("(" ++ source ++ ") " ++ operator.sign ++ " " ++ other).toList =
      parenthesised source.toList ++ ' ' :: (operator.sign.toList ++ ' ' :: other.toList) := by
    simp [parenthesised]
  apply parse?_of_orLevel
  · rw [spelled]
    exact (unsigned_parenthesised _ _).1
  rw [spelled]
  generalize length : (parenthesised source.toList ++
    ' ' :: (operator.sign.toList ++ ' ' :: other.toList)).length = limit
  have follows : Follows (' ' :: (operator.sign.toList ++ ' ' :: other.toList)) :=
    isOperator.follows other.toList
  have enough : depth ≤ limit := by
    rw [← length]
    simp only [List.length_append, List.length_cons]
    omega
  have start := path_of_primary (leaves_cons rfl) (primary_enclosed read length.le) follows.endsPath
  have left : Reads (levelOperand (exprUpTo limit) operator.level) _ value _ :=
    levelOperand_climb (Nat.zero_le _) isOperator.known.le (fun _ => unsigned_parenthesised _ _) start
      fun below _ less => by
        rw [isOperator.dropBlanks_eq]
        exact isOperator.refused below less ' ' rfl other.toList
  have right : Reads (levelOperand (exprUpTo limit) operator.level) other.toList second [] := by
    have reads := operand.closed enough isOperator.known.le .nil
    rwa [List.append_nil] at reads
  have solid : Leaves isBlank other.toList := by
    have unsigned := operand.unsigned []
    rw [List.append_nil] at unsigned
    exact unsigned.1
  have pair := levelOperand_of_pair isOperator (fun _ => unsigned_parenthesised _ _) left solid right
    (Nat.zero_le _) (Closes.nil.levelOperator _)
  exact levelOperand_climb isOperator.known (Nat.le_refl 7)
    (fun impossible => absurd impossible (Nat.succ_ne_zero _)) pair
    fun below _ _ => Closes.nil.levelOperator below

end NodeQuery.Expr

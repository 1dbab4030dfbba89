import NodeQuery.Expr.Reader
import NodeQuery.Proofs.Text.Reader

/-!
# Reading up to blanks

Most rules skip the blanks behind what they read, some only a few of them, and every rule skips those
in front of its next part.  What a rule leaves is therefore described up to blanks at its front, and
in that form the rules for repetition and for operators compose.
-/

namespace NodeQuery.Expr

open Text (Reader)
open Text.Reader

variable {α : Type}

def dropBlanks (text : List Char) : List Char := text.dropWhile isBlank

theorem isBlank_cases {c : Char} (blank : isBlank c = true) : c = ' ' ∨ c = '\t' ∨ c = '\r' ∨ c = '\n' := by
  simpa only [isBlank, Bool.or_eq_true, beq_iff_eq, or_assoc] using blank

theorem blanks_apply (text : List Char) : blanks text = some ((), dropBlanks text) := rfl

theorem dropBlanks_of_leaves {text : List Char} (leaves : Leaves isBlank text) :
    dropBlanks text = text :=
  (takeWhile_append_of_leaves (fun _ member => absurd member List.not_mem_nil) leaves).2

theorem leaves_dropBlanks (text : List Char) : Leaves isBlank (dropBlanks text) :=
  leaves_dropWhile isBlank text

theorem dropBlanks_dropBlanks (text : List Char) : dropBlanks (dropBlanks text) = dropBlanks text :=
  dropBlanks_of_leaves (leaves_dropBlanks text)

theorem length_dropBlanks_le (text : List Char) : (dropBlanks text).length ≤ text.length :=
  (List.dropWhile_sublist isBlank).length_le

/-- Two texts of which the first is the second, with or without the blanks at its front. -/
def Behind (left rest : List Char) : Prop := left = rest ∨ left = dropBlanks rest

theorem Behind.refl (rest : List Char) : Behind rest rest := Or.inl rfl

theorem Behind.dropBlanks_eq {left rest : List Char} (behind : Behind left rest) :
    dropBlanks left = dropBlanks rest := by
  rcases behind with same | dropped
  · rw [same]
  · rw [dropped, dropBlanks_dropBlanks]

theorem Behind.eq_of_leaves {left rest : List Char} (behind : Behind left rest)
    (leaves : Leaves isBlank rest) : left = rest := by
  rcases behind with same | dropped
  · exact same
  · rw [dropped, dropBlanks_of_leaves leaves]

/-- A reader takes a value off a text and leaves `rest`, up to blanks at its front. -/
def Reads (reader : Reader α) (text : List Char) (value : α) (rest : List Char) : Prop :=
  ∃ left, reader text = some (value, left) ∧ Behind left rest

theorem Reads.of_eq {reader : Reader α} {text rest : List Char} {value : α}
    (exact_ : reader text = some (value, rest)) : Reads reader text value rest :=
  ⟨rest, exact_, Behind.refl rest⟩

/-- What is left behind a reading, once blanks are skipped, is the rest without blanks. -/
theorem Reads.bind_blanks {β : Type} {reader : Reader α} {text rest : List Char} {value : α}
    (reads : Reads reader text value rest) (next : α → Reader β) :
    (do let taken ← reader; blanks; next taken) text = next value (dropBlanks rest) := by
  rcases reads with ⟨left, given, behind⟩
  rw [bind_of_some given, bind_of_some (blanks_apply left), behind.dropBlanks_eq]

/-- Items off the front of a text, with blanks before each, until the item reader refuses. -/
inductive Items (item : Reader α) : List Char → List α → List Char → Prop
  | done {rest : List Char} (stops : item (dropBlanks rest) = none) : Items item rest [] rest
  | more {text after rest : List Char} {first : α} {others : List α}
      (reads : Reads item (dropBlanks text) first after)
      (shorter : after.length < (dropBlanks text).length) (items : Items item after others rest) :
      Items item text (first :: others) rest

/-- Items off the front of a text, with blanks before each, whatever comes behind them. -/
inductive Takes (item : Reader α) : List Char → List α → List Char → Prop
  | done (rest : List Char) : Takes item rest [] rest
  | more {text after rest : List Char} {first : α} {others : List α}
      (reads : Reads item (dropBlanks text) first after)
      (shorter : after.length < (dropBlanks text).length) (takes : Takes item after others rest) :
      Takes item text (first :: others) rest

section
variable {item : Reader α} {text middle rest : List Char} {values others : List α}

theorem Takes.append (takes : Takes item text values middle) (further : Takes item middle others rest) :
    Takes item text (values ++ others) rest := by
  induction takes with
  | done rest => exact further
  | more reads shorter _ ih => exact .more reads shorter (ih further)

/-- Items that are taken and that none follows are all items. -/
theorem Takes.items (takes : Takes item text values rest) (stops : item (dropBlanks rest) = none) :
    Items item text values rest := by
  induction takes with
  | done rest => exact .done stops
  | more reads shorter _ ih => exact .more reads shorter (ih stops)

end

theorem manyAlong_of_items {item : Reader α} {text rest : List Char} {values : List α}
    (items : Items item text values rest) {left : List Char} (behind : Behind left text)
    {limit : List Char} (enough : (dropBlanks text).length ≤ limit.length) :
    Reads (manyAlong (do blanks; item) limit) left values rest := by
  induction items generalizing left limit with
  | done stops =>
      refine ⟨left, ?_, behind⟩
      cases limit with
      | nil => rfl
      | cons c limit =>
          rw [manyAlong]
          apply (orElse_of_none _).trans rfl
          apply bind_of_none
          rw [bind_of_some (blanks_apply left), behind.dropBlanks_eq, stops]
  | @more text after rest first others reads shorter items ih =>
      cases limit with
      | nil => rw [List.length_nil] at enough; omega
      | cons c limit =>
          rcases reads with ⟨next, given, nextBehind⟩
          have fits : (dropBlanks after).length ≤ limit.length := by
            have dropped := length_dropBlanks_le after
            rw [List.length_cons] at enough
            omega
          rcases ih nextBehind fits with ⟨last, othersGiven, lastBehind⟩
          refine ⟨last, ?_, lastBehind⟩
          rw [manyAlong]
          apply orElse_of_some
          have taken : (do blanks; item : Reader α) left = some (first, next) := by
            rw [bind_of_some (blanks_apply left), behind.dropBlanks_eq, given]
          rw [bind_of_some taken, bind_of_some othersGiven]
          rfl

theorem spaced_of_items {item : Reader α} {text rest : List Char} {values : List α}
    (items : Items item text values rest) : Reads (spaced item) (dropBlanks text) values rest := by
  cases items with
  | done stops =>
      refine ⟨dropBlanks text, ?_, Or.inr rfl⟩
      rw [spaced]
      exact (orElse_of_none (bind_of_none stops)).trans rfl
  | more reads shorter items =>
      rcases reads with ⟨next, given, nextBehind⟩
      have fits : (dropBlanks _).length ≤ next.length := nextBehind.dropBlanks_eq ▸
        length_dropBlanks_le next
      rcases manyAlong_of_items items nextBehind fits with ⟨last, taken, lastBehind⟩
      have othersGiven : many (do blanks; item) next = some (_, last) := taken
      refine ⟨last, ?_, lastBehind⟩
      rw [spaced]
      apply orElse_of_some
      rw [bind_of_some given, bind_of_some othersGiven]
      rfl

section
variable {operand : Reader Expr} {operator : Reader Operator}

/-- The operations that follow a first operand: each an operator with its second operand. -/
abbrev Operations (operand : Reader Expr) (operator : Reader Operator) :=
  Items (operation operand operator)

theorem operation_stops {rest : List Char} (stops : operator (dropBlanks rest) = none) :
    operation operand operator (dropBlanks rest) = none := bind_of_none stops

theorem operation_reads {text next rest : List Char} {combine : Operator} {right : Expr}
    (taken : operator text = some (combine, next)) (reads : Reads operand (dropBlanks next) right rest) :
    Reads (operation operand operator) text (combine, right) rest := by
  rcases reads with ⟨left, given, behind⟩
  refine ⟨left, ?_, behind⟩
  rw [operation, bind_of_some taken, bind_of_some (blanks_apply next), bind_of_some given]
  rfl

theorem leftGrouped_of_operations {text middle rest : List Char} {first : Expr}
    {others : List (Operator × Expr)} (reads : Reads operand text first middle)
    (operations : Operations operand operator middle others rest) :
    Reads (leftGrouped operand operator) text
      (others.foldl (fun left (combine, right) => combine left right) first) rest := by
  rcases spaced_of_items operations with ⟨left, given, behind⟩
  refine ⟨left, ?_, behind⟩
  rw [leftGrouped, reads.bind_blanks, bind_of_some given]
  rfl

/-- An operand with no operator behind it. -/
theorem leftGrouped_of_single {text rest : List Char} {only : Expr} (reads : Reads operand text only rest)
    (stops : operator (dropBlanks rest) = none) :
    Reads (leftGrouped operand operator) text only rest :=
  leftGrouped_of_operations reads (.done (operation_stops stops))

/-- Two operands with one operator between them. -/
theorem leftGrouped_of_pair {text middle next rest : List Char} {first second : Expr}
    {combine : Operator} (reads : Reads operand text first middle)
    (taken : operator (dropBlanks middle) = some (combine, next))
    (secondReads : Reads operand (dropBlanks next) second rest)
    (shorter : rest.length < (dropBlanks middle).length)
    (stops : operator (dropBlanks rest) = none) :
    Reads (leftGrouped operand operator) text (combine first second) rest :=
  leftGrouped_of_operations reads
    (.more (operation_reads taken secondReads) shorter (.done (operation_stops stops)))

end

end NodeQuery.Expr

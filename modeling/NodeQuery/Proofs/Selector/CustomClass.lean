import NodeQuery.Proofs.Selector.Calls

/-!
# Pseudo-classes without a fixed meaning

An element name with a pseudo-class behind it, in whose parentheses nothing stands, is read as a compound
of the two whatever the names are.  Unless the pseudo-class counts children, the selector looks for the
elements of that name anywhere and calls the function of the other name about each.
-/

namespace NodeQuery

open Text (Reader)
open Text.Reader

/-- One item is all that is read where the next one is refused. -/
theorem Text.Reader.many_of_single {α : Type} {item : Reader α} {text rest : List Char} {value : α}
    (given : item text = some (value, rest)) (filled : text ≠ []) (stops : item rest = none) :
    many item text = some ([value], rest) := by
  have none_more (limit : List Char) : manyAlong item limit rest = some ([], rest) := by
    cases limit with
    | nil => rfl
    | cons c limit => exact orElse_of_none (bind_of_none stops)
  cases text with
  | nil => exact absurd rfl filled
  | cons c text =>
      rw [many, manyAlong]
      apply orElse_of_some
      rw [bind_of_some given, bind_of_some (none_more text)]
      rfl

namespace Selector

variable {name function : String}

/-- A name of both languages: one of selectors that does not begin with a minus sign. -/
structure IsPlainName (name : String) : Prop where
  isName : IsName name
  unsigned : isUnsigned name = true

/-- Such a name begins with a character that names start with. -/
theorem IsPlainName.start (plain : IsPlainName name) :
    ∃ first others, name.toList = first :: others ∧ isNameStart first = true := by
  rcases plain.isName.head with ⟨first, others, spelled, minus | start⟩
  · have unsigned := plain.unsigned
    rw [isUnsigned, spelled, minus] at unsigned
    cases unsigned
  · exact ⟨first, others, spelled, start⟩

instance (name : String) : Decidable (IsPlainName name) :=
  decidable_of_iff (name.toList.head?.any isNameStart = true ∧ name.toList.all isNameChar = true) <| by
    rw [List.all_eq_true]
    constructor
    · rintro ⟨start, all⟩
      rcases spelled : name.toList with _ | ⟨first, others⟩
      · rw [spelled] at start
        cases start
      · rw [spelled] at start
        refine ⟨⟨⟨first, others, spelled, Or.inr start⟩, all⟩, ?_⟩
        rw [isUnsigned, spelled, List.head?_cons, bne_iff_ne]
        rintro same
        cases same
        cases start
    · intro plain
      rcases plain.start with ⟨first, others, spelled, start⟩
      rw [spelled, List.head?_cons, Option.any_some]
      exact ⟨start, spelled ▸ plain.isName.all⟩

namespace IsPlainName

variable (plain : IsPlainName name)
include plain

/-- It does not begin with a character that names cannot start with. -/
theorem leaves {c : Char} (outside : isNameStart c = false) (rest : List Char) :
    Leaves (· == c) (name.toList ++ rest) := by
  rcases plain.start with ⟨first, others, spelled, start⟩
  rw [spelled]
  apply leaves_cons
  rw [beq_eq_false_iff_ne]
  rintro rfl
  rw [outside] at start
  cases start

theorem name_append {rest : List Char} (ended : Leaves isNameChar rest) :
    Selector.name (name.toList ++ rest) = some (name, rest) := by
  have noSign : maybe (token "-") (name.toList ++ rest) = some (none, name.toList ++ rest) :=
    maybe_of_none (Expr.token_of_leaves (plain.leaves rfl rest) rfl)
  have starts : name.toList.head?.any isNameStart = true := by
    rcases plain.start with ⟨first, others, spelled, start⟩
    rw [spelled, List.head?_cons, Option.any_some, start]
  rw [Selector.name, bind_of_some noSign, bind_of_some (run_append plain.isName.all ended), bind_apply,
    guard_apply, if_pos starts]
  change some (String.ofList name.toList, rest) = _
  rw [String.ofList_toList]

theorem blanks_eq (rest : List Char) :
    blanks (name.toList ++ rest) = some ((), name.toList ++ rest) := by
  have solid : Leaves isBlank (name.toList ++ rest) := by
    intro c head
    have apart {other : Char} (outside : isNameStart other = false) : (c == other) = false :=
      plain.leaves outside rest c head
    rw [isBlank, apart rfl, apart rfl, apart rfl, apart rfl]
    rfl
  have kept : (name.toList ++ rest).dropWhile isBlank = name.toList ++ rest :=
    (takeWhile_append_of_leaves (fun _ member => absurd member List.not_mem_nil) solid).2
  change some ((), (name.toList ++ rest).dropWhile isBlank) = _
  rw [kept]

end IsPlainName

/-- Empty parentheses hold no condition, so no negation is read where a name has them behind it. -/
theorem negation_refuses (isName : IsName function) (limit : Nat) :
    (do
      negationWord
      token "("
      blanks
      let inner ← negatedUpTo limit
      blanks
      token ")"
      pure (.negation inner) : Reader Condition) (function.toList ++ ['(', ')']) = none := by
  by_cases begins : ((function.toList ++ ['(', ')']).take 3).map Char.toLower = "not".toList
  · have taken : negationWord (function.toList ++ ['(', ')']) =
        some ((), (function.toList ++ ['(', ')']).drop 3) :=
      if_pos (beq_iff_eq.mpr begins)
    rw [bind_of_some taken]
    match spelled : function.toList with
    | [] | [_] | [_, _] =>
        rw [spelled] at begins
        simp at begins
    | [_, _, _] => cases limit <;> rfl
    | _ :: _ :: _ :: fourth :: others =>
        -- A longer name goes on where the parenthesis would have to stand.
        have inside : isNameChar fourth = true := isName.all fourth (by simp [spelled])
        apply bind_of_none
        apply Expr.token_of_leaves _ rfl
        apply leaves_cons
        rw [beq_eq_false_iff_ne]
        rintro rfl
        cases inside
  · exact bind_of_none (if_neg fun found => begins (beq_iff_eq.mp found))

theorem simple_pseudoCall (called : IsPlainName function) :
    simple (':' :: (function.toList ++ ['(', ')'])) =
      some (.pseudoClass function (some []), []) := by
  have colon : token ":" (':' :: (function.toList ++ ['(', ')'])) =
      some ((), function.toList ++ ['(', ')']) := rfl
  rw [simple, simpleUpTo, orElse_of_none rfl, orElse_of_none rfl, orElse_of_none rfl, pseudoCondition,
    bind_of_some colon, orElse_of_none (negation_refuses called.isName _)]
  apply orElse_of_some
  rw [bind_of_some (called.name_append (leaves_cons rfl))]
  rfl

theorem parse?_pseudoCall (named : IsPlainName name) (called : IsPlainName function) :
    parse? (name ++ ":" ++ function ++ "()") =
      some [⟨⟨some (.named name), [.pseudoClass function (some [])]⟩, []⟩] := by
  let behind : List Char := ':' :: (function.toList ++ ['(', ')'])
  have spelled : (name ++ ":" ++ function ++ "()").toList = name.toList ++ behind := by
    simp [behind]
  have element : elementName (name.toList ++ behind) = some (.named name, behind) := by
    rw [elementName, orElse_of_none
      (bind_of_none (Expr.token_of_leaves (named.leaves rfl behind) rfl)),
      bind_of_some (named.name_append (leaves_cons rfl))]
    rfl
  have conditions : many simple behind = some ([.pseudoClass function (some [])], []) :=
    many_of_single (simple_pseudoCall called) (List.cons_ne_nil _ _) rfl
  have whole : compound (name.toList ++ behind) =
      some (⟨some (.named name), [.pseudoClass function (some [])]⟩, []) := by
    apply orElse_of_some
    rw [bind_of_some element, bind_of_some conditions]
    rfl
  rw [parse?, whole?, spelled, group, bind_assoc, bind_of_some (named.blanks_eq behind), chain]
  simp only [bind_assoc]
  rw [bind_of_some whole]
  rfl

/-- A name that both languages take for a function: it is no node test and counts no children. -/
structure IsCallable (function : String) : Prop extends IsPlainName function where
  noTest : function ∉ Expr.testWords
  countsNone : function ≠ "nth-child" ∧ function ≠ "nth-last-child"

instance (function : String) : Decidable (IsCallable function) :=
  decidable_of_iff (IsPlainName function ∧ function ∉ Expr.testWords ∧
      function ≠ "nth-child" ∧ function ≠ "nth-last-child")
    ⟨fun ⟨plain, noTest, countsNone⟩ => ⟨plain, noTest, countsNone⟩,
      fun callable => ⟨callable.toIsPlainName, callable.noTest, callable.countsNone⟩⟩

/-- With parentheses behind it such a name has no fixed meaning, whatever stands in them. -/
theorem IsCallable.isCustom_some (callable : IsCallable function) (arguments : List PseudoArgument) :
    isCustom function (some arguments) = true := by
  rw [isCustom, Option.isSome_some, Bool.true_or, Bool.and_true, Bool.not_eq_true',
    List.contains_eq_mem, decide_eq_false_iff_not]
  simpa using callable.countsNone

/-- A name with a pseudo-class behind it that has no fixed meaning stands for a call about each element of
the name. -/
theorem groupExpr?_pseudoClass (start : List Step → Expr) {arguments : Option (List PseudoArgument)}
    (custom : isCustom function arguments = true) :
    groupExpr? start [⟨⟨some (.named name), [.pseudoClass function arguments]⟩, []⟩] =
      some (start [.mk .child (.named name) [callExpr function (arguments.getD [])]]) := by
  have condition : conditionExpr? (.pseudoClass function arguments) =
      some (callExpr function (arguments.getD [])) := by
    rw [conditionExpr?, pseudoClassExpr?_of_custom custom]
  simp only [groupExpr?, List.mapM_cons, List.mapM_nil, steps?, compoundStep?, condition]
  rfl

end Selector

namespace Query

open Selector (IsPlainName IsCallable isCustom callExpr)

variable {start name function : String} {from_ : List Step → Expr}

/-- The path for such a selector is read back as that call. -/
theorem selectorPath_pseudoClass (starts : Selector.Starts start from_) (named : IsPlainName name)
    (callable : IsCallable function) {arguments : Option (List PseudoArgument)}
    (custom : isCustom function arguments = true) {selector : String}
    (parsed : Selector.parse? selector =
      some [⟨⟨some (.named name), [.pseudoClass function arguments]⟩, []⟩]) :
    ∃ path, selectorPath start selector = .ok path ∧ Expr.parse? path =
      some (from_ [.mk .child (.named name) [callExpr function (arguments.getD [])]]) := by
  apply selectorPath_of_groupExpr starts parsed
  · have noTest : Expr.testWords.contains function = false := by
      simpa using callable.noTest
    simp only [List.all_cons, List.all_nil, Selector.isPlain, Compound.isPlain, Option.all_some,
      ElementName.isPlain, Condition.isPlain, named.unsigned, callable.unsigned, noTest]
    rfl
  · exact Selector.groupExpr?_pseudoClass from_ custom

theorem selectorPath_pseudoCall (starts : Selector.Starts start from_) (named : IsPlainName name)
    (callable : IsCallable function) :
    ∃ path, selectorPath start (name ++ ":" ++ function ++ "()") = .ok path ∧
      Expr.parse? path = some (from_ [.mk .child (.named name) [.call function [.focus]]]) :=
  selectorPath_pseudoClass starts named callable (callable.isCustom_some [])
    (Selector.parse?_pseudoCall named callable.toIsPlainName)

end Query

end NodeQuery

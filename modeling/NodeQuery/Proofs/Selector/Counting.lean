import Mathlib.Data.List.Forall2
import NodeQuery.Selector.Syntax

/-!
# Counts in selectors

Pseudo-classes for counting are the only conditions that may lack a path, and they lack one exactly where
they are not given a count.  What is said here of counts is said twice, of the arguments that are read and of
the trees that the grammar gives, and the two agree.
-/

namespace NodeQuery.Selector

open Text (ParseTree)

theorem miscounted_node {rule : Rule} (notBare : rule ≠ .barePseudo)
    (notFunctional : rule ≠ .functionalPseudo) (text : List Char) (children : List (ParseTree Rule)) :
    Miscounted (.node rule text children) ↔ ∃ child ∈ children, Miscounted child := by
  constructor
  · rintro ⟨part, within, miscounts⟩
    cases within with
    | whole =>
        cases miscounts with
        | bare => exact absurd rfl notBare
        | functional => exact absurd rfl notFunctional
    | inside listed within => exact ⟨_, listed, part, within, miscounts⟩
  · rintro ⟨child, listed, part, within, miscounts⟩
    exact ⟨part, .inside listed within, miscounts⟩

theorem not_miscounted_leaf {rule : Rule} (notBare : rule ≠ .barePseudo)
    (notFunctional : rule ≠ .functionalPseudo) (text : List Char) :
    ¬ Miscounted (.node rule text []) := by
  rw [miscounted_node notBare notFunctional]
  simp

/-- An argument and its tree. -/
inductive ArgumentOf : PseudoArgument → ParseTree Rule → Prop where
  | number {text : String} (unsigned : text.toList.head? ≠ some '+') :
      ArgumentOf (.number text) (.node .pseudoArg text.toList [.node .number text.toList []])
  | string {quote : Char} {content : String} {parts : List (ParseTree Rule)}
      (quoted : quote = '"' ∨ quote = '\'') (calm : ∀ part ∈ parts, ¬ Miscounted part) :
      ArgumentOf (.string quote content)
        (.node .pseudoArg (quote :: (content.toList ++ [quote]))
          [.node .string (quote :: (content.toList ++ [quote])) parts])

theorem ArgumentOf.text {argument : PseudoArgument} {tree : ParseTree Rule}
    (of : ArgumentOf argument tree) : pseudoArgument? tree = some (argumentText argument) := by
  cases of with
  | number unsigned => rw [pseudoArgument?, String.ofList_toList, argumentText]
  | string quoted calm =>
      rw [pseudoArgument?, argumentText, Option.some.injEq, ← String.toList_inj]
      simp

theorem ArgumentOf.calm {argument : PseudoArgument} {tree : ParseTree Rule}
    (of : ArgumentOf argument tree) : ¬ Miscounted tree := by
  cases of with
  | number unsigned =>
      rw [miscounted_node (by decide) (by decide)]
      simp [not_miscounted_leaf]
  | string quoted calm =>
      rw [miscounted_node (by decide) (by decide)]
      simpa [miscounted_node] using calm

theorem childCount?_number (text : String) :
    childCount? (some [.number text]) =
      if !text.toList.isEmpty && text.toList.all Char.isDigit then
        if 0 < numberOf text.toList && numberOf text.toList ≤ greatestCount then
          some (numberOf text.toList)
        else none
      else none := rfl

/-- Digits alone are a count if they stand for a number from one to the greatest. -/
theorem childCount?_eq_none_iff (text : String) :
    childCount? (some [.number text]) = none ↔ ¬ IsCount text.toList := by
  rw [childCount?_number]
  constructor
  · intro refused count
    have filled : text.toList ≠ [] := by
      intro none
      have least := count.least
      rw [none] at least
      cases least
    rw [if_pos, if_pos] at refused
    · cases refused
    · simpa using ⟨count.least, Nat.le_sub_one_of_lt count.greatest⟩
    · simpa [filled] using count.digits
  · intro miscounted
    split
    · rename_i digits
      split
      · rename_i inside
        simp only [Bool.and_eq_true, decide_eq_true_iff, List.all_eq_true] at inside digits
        exact absurd ⟨digits.2, inside.1, Nat.lt_of_le_sub_one (by decide) inside.2⟩ miscounted
      · rfl
    · rfl

/-- Without a plus sign in front, a text is a number above zero just where it is a count. -/
theorem machineWord?_of_unsigned {text : String} (unsigned : text.toList.head? ≠ some '+') :
    (machineWord? text.toList).filter (0 < ·) = childCount? (some [.number text]) := by
  rw [machineWord?, if_neg unsigned, childCount?_number]
  generalize numberOf text.toList = count
  rcases Bool.eq_false_or_eq_true (!text.toList.isEmpty && text.toList.all Char.isDigit) with
    digits | digits
  · by_cases greatest : count ≤ greatestCount <;> cases count <;> simp [digits, greatest]
  · simp [digits]

/-- A text in quotes is no number. -/
theorem machineWord?_quoted {quote : Char} (quoted : quote = '"' ∨ quote = '\'') (rest : List Char) :
    machineWord? (quote :: rest) = none := by
  rcases quoted with rfl | rfl <;> simp [machineWord?]

/-- Only pseudo-classes for counting may lack a condition. -/
theorem pseudoClassPath?_eq_none_iff (name : String) (arguments : Option (List PseudoArgument)) :
    pseudoClassPath? name arguments = none ↔
      name ∈ ["nth-child", "nth-last-child"] ∧ childCount? arguments = none := by
  unfold pseudoClassPath?
  rw [List.mem_cons, List.mem_singleton]
  split
  · rename_i first
    simp [eq_of_beq first, countPath?]
  · split
    · rename_i last
      simp [eq_of_beq last, countPath?]
    · rename_i notFirst notLast
      rw [beq_iff_eq] at notFirst notLast
      have neither : ¬ (name = "nth-child" ∨ name = "nth-last-child") := by simp [notFirst, notLast]
      simp only [neither, false_and, iff_false]
      repeat' split
      all_goals nofun

section
variable {arguments : List PseudoArgument} {trees : List (ParseTree Rule)}
variable (of : List.Forall₂ ArgumentOf arguments trees)
include of

theorem mapM_pseudoArgument? : trees.mapM pseudoArgument? = some (arguments.map argumentText) := by
  induction of with
  | nil => rfl
  | cons first _ ih =>
      rw [List.mapM_cons, first.text, ih]
      rfl

theorem calm_arguments : ∀ tree ∈ trees, ¬ Miscounted tree := by
  induction of with
  | nil => exact List.forall_mem_nil _
  | cons first _ ih => exact List.forall_mem_cons.mpr ⟨first.calm, ih⟩

theorem countCondition?_eq (axis : String) :
    countCondition? axis (arguments.map argumentText) = countPath? axis (some arguments) := by
  rcases of with _ | ⟨first, _ | _⟩
  · rfl
  · cases first with
    | number unsigned =>
        rw [countPath?, ← machineWord?_of_unsigned unsigned]
        rfl
    | @string quote content _ quoted calm =>
        have spelled : (argumentText (.string quote content)).toList =
            quote :: (content.toList ++ [quote]) := by
          simp [argumentText]
        rw [List.map_singleton, countCondition?, spelled, machineWord?_quoted quoted]
        rfl
  · simp [countCondition?, countPath?, childCount?]

/-- The condition made of the texts of arguments is the one for the arguments. -/
theorem functionalCondition?_eq (name : String) :
    (trees.mapM pseudoArgument?).bind (functionalCondition? name) =
      pseudoClassPath? name (some arguments) := by
  rw [mapM_pseudoArgument? of, Option.bind_some]
  unfold functionalCondition? pseudoClassPath?
  rw [countCondition?_eq of, countCondition?_eq of]
  have call : name ++ "(." ++ String.join ((arguments.map argumentText).map (", " ++ ·)) ++ ")" =
      callPath name arguments := by
    rw [callPath, List.map_map]
    rfl
  rw [call]

/-- Arguments give no count exactly if their trees are anything but a count. -/
theorem uncounted_iff : (∀ used digits parts, IsCount digits →
      trees ≠ [.node .pseudoArg used [.node .number digits parts]]) ↔
    childCount? (some arguments) = none := by
  rcases of with _ | ⟨first, _ | _⟩
  · exact iff_of_true nofun rfl
  · cases first with
    | @number text unsigned =>
        rw [childCount?_eq_none_iff]
        constructor
        · exact fun uncounted count => uncounted _ _ _ count rfl
        · rintro miscounted used digits parts count same
          cases same
          exact miscounted count
    | string quoted calm => exact iff_of_true nofun rfl
  · exact iff_of_true nofun (by simp [childCount?])

theorem miscounted_functional {name : ParseTree Rule} (calm : ¬ Miscounted name) (text : List Char) :
    Miscounted (.node .functionalPseudo text (name :: trees)) ↔
      pseudoClassPath? (textOf name) (some arguments) = none := by
  rw [pseudoClassPath?_eq_none_iff, ← uncounted_iff of]
  constructor
  · rintro ⟨part, within, miscounts⟩
    cases within with
    | whole =>
        cases miscounts with
        | functional counting uncounted => exact ⟨counting, uncounted⟩
    | inside listed within =>
        rcases List.mem_cons.mp listed with rfl | argument
        · exact absurd ⟨part, within, miscounts⟩ calm
        · exact absurd ⟨part, within, miscounts⟩ (calm_arguments of _ argument)
  · rintro ⟨counting, uncounted⟩
    exact ⟨_, .whole, .functional counting uncounted⟩

end

theorem miscounted_bare {child : ParseTree Rule} (calm : ¬ Miscounted child) (text : List Char) :
    Miscounted (.node .barePseudo text [child]) ↔ pseudoClassPath? (String.ofList text) none = none := by
  rw [pseudoClassPath?_eq_none_iff]
  constructor
  · rintro ⟨part, within, miscounts⟩
    cases within with
    | whole =>
        cases miscounts with
        | bare counting => exact ⟨counting, rfl⟩
    | inside listed within =>
        rw [List.mem_singleton.mp listed] at within
        exact absurd ⟨part, within, miscounts⟩ calm
  · rintro ⟨counting, _⟩
    exact ⟨_, .whole, .bare counting⟩

end NodeQuery.Selector

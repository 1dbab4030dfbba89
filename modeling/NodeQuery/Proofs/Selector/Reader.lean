import NodeQuery.Proofs.Expr.Rules
import NodeQuery.Selector.Reader

/-!
# What selectors are made of

Whatever text a selector is read from, its names consist of the characters of names, the strings in it
lack the quote they were written in, and its numbers are numerals.
-/

namespace NodeQuery

open Text (Reader)
open Text.Reader

namespace Selector

/-- The characters of a name in a selector: one that can start a name, or a minus sign, and others
that can go on with it. -/
structure IsName (name : String) : Prop where
  head : ∃ first others, name.toList = first :: others ∧ (first = '-' ∨ isNameStart first = true)
  all : ∀ c ∈ name.toList, isNameChar c = true

/-- Behind the minus sign that a name may begin with stands a name of the path language. -/
def SignsName (name : String) : Prop := ∀ chars, name.toList = '-' :: chars → Expr.IsName chars

/-- A text that can be written between quotes of one kind. -/
def Quotable (text : String) : Prop := '\'' ∉ text.toList ∨ '"' ∉ text.toList

/-- A number as it is written, with a minus sign or without one. -/
def IsNumeral (text : String) : Prop :=
  ∃ chars decimal, Expr.IsNumeral chars decimal ∧
    (text.toList = chars ∨ text.toList = '-' :: chars)

end Selector

def PseudoArgument.WellFormed : PseudoArgument → Prop
  | .number text => Selector.IsNumeral text
  | .string quote content => (quote = '"' ∨ quote = '\'') ∧ quote ∉ content.toList

def ElementName.WellFormed : ElementName → Prop
  | .any => True
  | .named name => Selector.IsName name

/-- A condition whose names are names and whose texts can be quoted. -/
def Condition.WellFormed : Condition → Prop
  | .elementName name => name.WellFormed
  | .id name => Selector.IsName name
  | .class_ name => Selector.IsName name
  | .attribute name test => Selector.IsName name ∧
      ∀ comparison, test = some comparison → Selector.Quotable comparison.2
  | .negation inner => inner.WellFormed
  | .pseudoClass name arguments => (Selector.IsName name ∧ Selector.SignsName name) ∧
      ∀ given, arguments = some given → ∀ argument ∈ given, argument.WellFormed

theorem Condition.WellFormed.arguments {name : String} {arguments : Option (List PseudoArgument)}
    (wellFormed : (Condition.pseudoClass name arguments).WellFormed) :
    ∀ argument ∈ arguments.getD [], argument.WellFormed := by
  cases arguments with
  | none => exact List.forall_mem_nil _
  | some given => exact wellFormed.2 given rfl

structure Compound.WellFormed (compound : Compound) : Prop where
  element : ∀ name, compound.element = some name → name.WellFormed
  conditions : ∀ condition ∈ compound.conditions, condition.WellFormed

structure Selector.WellFormed (selector : Selector) : Prop where
  first : selector.first.WellFormed
  others : ∀ link ∈ selector.others, link.2.WellFormed

namespace Selector

theorem isName_ofList {first : Char} {others : List Char}
    (head : first = '-' ∨ isNameStart first = true) (all : ∀ c ∈ first :: others, isNameChar c = true) :
    IsName (String.ofList (first :: others)) where
  head := ⟨first, others, String.toList_ofList, head⟩
  all c member := by
    rw [String.toList_ofList] at member
    exact all c member

/-- Every character that names of selectors go on with is one for names of paths. -/
theorem isNameChar_of_selector {c : Char} (inside : isNameChar c = true) : Expr.isNameChar c = true := by
  simp only [isNameChar, Expr.isNameChar, Bool.or_eq_true] at inside ⊢
  rcases inside with narrow | wide
  · exact Or.inl (Or.inl narrow)
  · exact Or.inr wide

theorem gives_signedName : Gives (fun given => IsName given ∧ SignsName given) name := by
  rw [name]
  refine Gives.after fun sign => ?_
  refine Gives.bind (gives_run isNameChar) fun taken all => ?_
  refine Gives.bind (gives_guard _) fun _ starts => ?_
  cases taken with
  | nil => cases starts
  | cons first others =>
      apply Gives.pure
      cases sign with
      | none =>
          refine ⟨isName_ofList (Or.inr starts) all, fun chars spelled => ?_⟩
          change isNameStart first = true at starts
          rw [if_neg (by decide), String.toList_ofList, List.cons.injEq] at spelled
          rw [spelled.1] at starts
          cases starts
      | some sign =>
          refine ⟨isName_ofList (Or.inl rfl) fun c member => ?_, fun chars spelled => ?_⟩
          · rcases List.mem_cons.mp member with same | later
            · rw [same]
              rfl
            · exact all c later
          · rw [if_pos Option.isSome_some, String.toList_ofList, List.cons.injEq] at spelled
            rw [← spelled.2]
            exact ⟨⟨first, others, rfl, starts⟩, fun c member => isNameChar_of_selector (all c member)⟩

theorem gives_name : Gives IsName name := gives_signedName.mono fun _ => And.left

theorem gives_quotedBy (quote : Char) : Gives (fun content => quote ∉ content.toList) (quotedBy quote) := by
  rw [quotedBy]
  refine Gives.after fun _ => ?_
  refine Gives.bind (gives_run _) fun content all => ?_
  refine Gives.after fun _ => Gives.pure fun member => ?_
  rw [String.toList_ofList] at member
  exact bne_iff_ne.mp (all quote member) rfl

theorem gives_numeral : Gives IsNumeral numeral := by
  rw [numeral]
  refine Gives.after fun sign => ?_
  refine Gives.bind (gives_run1 _) fun whole digits => ?_
  have fraction : Gives (fun digits => digits ≠ [] ∧ ∀ c ∈ digits, Char.isDigit c = true)
      (do token "."; run1 Char.isDigit) := Gives.after fun _ => gives_run1 _
  refine Gives.bind (gives_maybe fraction) fun behind behindDigits => Gives.pure ?_
  have signed {chars : List Char} {decimal : Numeral.Decimal}
      (isNumeral : Expr.IsNumeral chars decimal) :
      IsNumeral (String.ofList (if sign.isSome then '-' :: chars else chars)) := by
    refine ⟨chars, decimal, isNumeral, ?_⟩
    rw [String.toList_ofList]
    cases sign with
    | none => exact Or.inl rfl
    | some sign => exact Or.inr rfl
  cases behind with
  | none => exact signed (.whole digits.1 digits.2)
  | some behind => exact signed (.fraction digits.1 digits.2 (behindDigits behind rfl).2)

/-- Names hold no quotes. -/
theorem IsName.quotable {name : String} (isName : IsName name) : Quotable name :=
  Or.inl fun member => absurd (isName.all _ member) (by decide)

theorem IsNumeral.quotable {text : String} (isNumeral : IsNumeral text) : Quotable text := by
  have undotted {chars : List Char} {decimal : Numeral.Decimal}
      (written : Expr.IsNumeral chars decimal) : '\'' ∉ chars := by
    intro member
    cases written with
    | whole filled all => exact absurd (all _ member) (by decide)
    | fraction filled all allBehind =>
        rcases List.mem_append.mp member with before | behind
        · exact absurd (all _ before) (by decide)
        · rcases List.mem_cons.mp behind with point | inside
          · exact absurd point (by decide)
          · exact absurd (allBehind _ inside) (by decide)
  rcases isNumeral with ⟨chars, decimal, written, unsigned | signed⟩
  · rw [Quotable, unsigned]
    exact Or.inl (undotted written)
  · rw [Quotable, signed]
    refine Or.inl fun member => ?_
    rcases List.mem_cons.mp member with sign | inside
    · exact absurd sign (by decide)
    · exact undotted written inside

theorem gives_elementName : Gives ElementName.WellFormed elementName := by
  apply Gives.orElse
  · exact Gives.after fun _ => Gives.pure trivial
  · exact Gives.bind gives_name fun exact_ isName => Gives.pure isName

theorem gives_attributeValue : Gives Quotable attributeValue := by
  rw [attributeValue]
  refine Gives.orElse ((gives_quotedBy '"').mono fun _ => Or.inr) ?_
  refine Gives.orElse ((gives_quotedBy '\'').mono fun _ => Or.inl) ?_
  exact Gives.orElse (gives_name.mono fun _ => IsName.quotable)
    (gives_numeral.mono fun _ => IsNumeral.quotable)

theorem gives_attributeCondition : Gives Condition.WellFormed attributeCondition := by
  have comparison : Gives (fun comparison : AttributeMatch × String => Quotable comparison.2) (do
      let comparison ← attributeMatch
      blanks
      let value ← attributeValue
      blanks
      pure (comparison, value)) :=
    Gives.after fun _ => Gives.after fun _ => Gives.bind gives_attributeValue fun _ quotable =>
      Gives.after fun _ => Gives.pure quotable
  rw [attributeCondition]
  refine Gives.after fun _ => Gives.after fun _ => ?_
  refine Gives.bind gives_name fun target isName => Gives.after fun _ => ?_
  refine Gives.bind (gives_maybe comparison) fun test quotable => Gives.after fun _ => ?_
  exact Gives.pure ⟨isName, quotable⟩

theorem gives_pseudoArgument : Gives PseudoArgument.WellFormed pseudoArgument := by
  apply Gives.orElse
  · exact Gives.bind (gives_quotedBy '"') fun _ inside => Gives.pure ⟨Or.inl rfl, inside⟩
  apply Gives.orElse
  · exact Gives.bind (gives_quotedBy '\'') fun _ inside => Gives.pure ⟨Or.inr rfl, inside⟩
  · exact Gives.bind gives_numeral fun _ isNumeral => Gives.pure isNumeral

theorem gives_pseudoArguments :
    Gives (fun arguments => ∀ argument ∈ arguments, PseudoArgument.WellFormed argument)
      pseudoArguments := by
  apply Gives.orElse
  · refine Gives.bind gives_pseudoArgument fun first firstHolds => ?_
    have behind : Gives PseudoArgument.WellFormed (do blanks; token ","; blanks; pseudoArgument) :=
      Gives.after fun _ => Gives.after fun _ => Gives.after fun _ => gives_pseudoArgument
    refine Gives.bind (gives_many behind) fun others othersHold => Gives.pure ?_
    exact List.forall_mem_cons.mpr ⟨firstHolds, othersHold⟩
  · exact Gives.pure fun _ member => absurd member List.not_mem_nil

theorem gives_pseudoCondition {inner : Reader Condition} (gives : Gives Condition.WellFormed inner) :
    Gives Condition.WellFormed (pseudoCondition inner) := by
  refine Gives.after fun _ => ?_
  apply Gives.orElse
  · refine Gives.after fun _ => Gives.after fun _ => Gives.after fun _ => ?_
    refine Gives.bind gives fun _ wellFormed => ?_
    exact Gives.after fun _ => Gives.after fun _ => Gives.pure wellFormed
  apply Gives.orElse
  · refine Gives.bind gives_signedName fun _ isName => Gives.after fun _ => Gives.after fun _ => ?_
    refine Gives.bind gives_pseudoArguments fun arguments all => ?_
    refine Gives.after fun _ => Gives.after fun _ => Gives.pure ⟨isName, ?_⟩
    intro given same
    cases same
    exact all
  · refine Gives.bind gives_signedName fun _ isName => Gives.pure ⟨isName, ?_⟩
    intro given impossible
    cases impossible

theorem gives_simpleUpTo {negated : Reader Condition} (gives : Gives Condition.WellFormed negated) :
    Gives Condition.WellFormed (simpleUpTo negated) := by
  apply Gives.orElse
  · exact Gives.after fun _ => Gives.bind gives_name fun _ isName => Gives.pure isName
  apply Gives.orElse
  · exact Gives.after fun _ => Gives.bind gives_name fun _ isName => Gives.pure isName
  · exact gives_attributeCondition.orElse (gives_pseudoCondition gives)

theorem gives_negatedUpTo (limit : Nat) : Gives Condition.WellFormed (negatedUpTo limit) := by
  induction limit with
  | zero =>
      intro text value rest impossible
      cases impossible
  | succ limit ih =>
      apply Gives.orElse
      · exact Gives.bind gives_elementName fun _ wellFormed => Gives.pure wellFormed
      · exact gives_simpleUpTo ih

theorem gives_simple : Gives Condition.WellFormed simple :=
  fun text => gives_simpleUpTo (gives_negatedUpTo text.length) text

theorem gives_compound : Gives Compound.WellFormed compound := by
  apply Gives.orElse
  · refine Gives.bind gives_elementName fun element wellFormed => ?_
    refine Gives.bind (gives_many gives_simple) fun conditions all => Gives.pure ⟨?_, all⟩
    intro name same
    cases same
    exact wellFormed
  · refine Gives.bind gives_simple fun first firstHolds => ?_
    refine Gives.bind (gives_many gives_simple) fun others othersHold => Gives.pure ⟨?_, ?_⟩
    · intro name impossible
      cases impossible
    · exact List.forall_mem_cons.mpr ⟨firstHolds, othersHold⟩

theorem gives_chain : Gives WellFormed chain := by
  have link : Gives (fun link : Combinator × Compound => link.2.WellFormed) (do
      let joined ← combinator
      let next ← compound
      pure (joined, next)) :=
    Gives.after fun _ => Gives.bind gives_compound fun _ wellFormed => Gives.pure wellFormed
  refine Gives.bind gives_compound fun first firstHolds => ?_
  exact Gives.bind (gives_many link) fun others othersHold => Gives.pure ⟨firstHolds, othersHold⟩

theorem gives_group : Gives (fun selectors => selectors ≠ [] ∧ ∀ selector ∈ selectors, selector.WellFormed)
    group := by
  have behind : Gives WellFormed (do blanks; token ","; blanks; chain) :=
    Gives.after fun _ => Gives.after fun _ => Gives.after fun _ => gives_chain
  refine Gives.after fun _ => Gives.bind gives_chain fun first firstHolds => ?_
  refine Gives.bind (gives_many behind) fun others othersHold => Gives.after fun _ => ?_
  exact Gives.pure ⟨List.cons_ne_nil _ _, List.forall_mem_cons.mpr ⟨firstHolds, othersHold⟩⟩

/-- Alternatives that were read from a text are well formed, and there is one at least. -/
theorem wellFormed_of_parse {text : String} {selectors : SelectorGroup}
    (parsed : parse? text = some selectors) :
    selectors ≠ [] ∧ ∀ selector ∈ selectors, selector.WellFormed :=
  gives_group.whole parsed

end Selector

end NodeQuery

import NodeQuery.Proofs.Expr.Levels
import NodeQuery.Proofs.Selector.Reader
import NodeQuery.Selector.Structure

/-!
# Conditions in paths

The predicate written for a condition reads back as the expression for that condition.  Names have to
be plain: the grammar of paths knows no name with a minus sign in front, and a few words with a
parenthesis behind them call no function.
-/

namespace NodeQuery

open NodeQuery.Expr (Body Operand IsName callChars isOperator_connective)
open Text.Reader

def Selector.isUnsigned (name : String) : Bool := name.toList.head? != some '-'

def ElementName.isPlain : ElementName → Bool
  | .any => true
  | .named name => Selector.isUnsigned name

/-- A condition whose names can stand in a path as they are. -/
def Condition.isPlain : Condition → Bool
  | .elementName name => name.isPlain
  | .id _ => true
  | .class_ _ => true
  | .attribute name _ => Selector.isUnsigned name
  | .negation inner => inner.isPlain
  | .pseudoClass name _ => Selector.isUnsigned name && !Expr.testWords.contains name

def Compound.isPlain (compound : Compound) : Bool :=
  compound.element.all ElementName.isPlain && compound.conditions.all Condition.isPlain

def Selector.isPlain (selector : Selector) : Bool :=
  selector.first.isPlain && selector.others.all fun link => link.2.isPlain

namespace Selector

/-- A plain name is a name of the path language too. -/
theorem IsName.chars {name : String} (isName : Selector.IsName name) (plain : isUnsigned name = true) :
    Expr.IsName name.toList where
  head := by
    rcases isName.head with ⟨first, others, spelled, minus | start⟩
    · rw [isUnsigned, spelled, minus] at plain
      cases plain
    · exact ⟨first, others, spelled, start⟩
  all c member := isNameChar_of_selector (isName.all c member)

/-- The text of a whole expression, which nests brackets no deeper than it is long. -/
def Writes (path : String) (value : Expr) : Prop := Body path.toList.length path.toList value

theorem writes_of_body {depth : Nat} {chars : List Char} {path : String} {value : Expr}
    (body : Body depth chars value) (spelled : path.toList = chars) (fits : depth ≤ chars.length) :
    Writes path value := by
  rw [Writes, spelled]
  exact body.mono fits

/-- What two translations give, if they give anything, is related. -/
theorem rel_ite {α β : Type} {related : α → β → Prop} {holds : Prop} [Decidable holds]
    {first second : Option α} {firstOther secondOther : Option β}
    (yes : holds → Option.Rel related first firstOther)
    (no : ¬ holds → Option.Rel related second secondOther) :
    Option.Rel related (if holds then first else second)
      (if holds then firstOther else secondOther) := by
  by_cases given : holds
  · rw [if_pos given, if_pos given]
    exact yes given
  · rw [if_neg given, if_neg given]
    exact no given

theorem rel_map {α β γ δ : Type} {related : α → β → Prop} {mapped : γ → δ → Prop} {first : Option α}
    {second : Option β} (rel : Option.Rel related first second) {left : α → γ} {right : β → δ}
    (keeps : ∀ value other, related value other → mapped (left value) (right other)) :
    Option.Rel mapped (first.map left) (second.map right) := by
  cases rel with
  | none => exact .none
  | some given => exact .some (keeps _ _ given)

/-- A text between the quotes it lacks is a string. -/
theorem operand_quoteLiteral {text : String} (quotable : Quotable text) :
    Operand 0 (quoteLiteral text).toList (.string text) := by
  have written {quote : Char} (known : quote = '"' ∨ quote = '\'') (lacks : quote ∉ text.toList)
      (spelled : (quoteLiteral text).toList = quote :: (text.toList ++ [quote])) :
      Operand 0 (quoteLiteral text).toList (.string text) := by
    rw [spelled]
    exact Operand.string known lacks
  by_cases single : '\'' ∈ text.toList
  · have double : '"' ∉ text.toList := quotable.resolve_left (not_not_intro single)
    refine written (Or.inl rfl) double ?_
    simp [quoteLiteral, single, double]
  · refine written (Or.inr rfl) single ?_
    simp [quoteLiteral, single]

theorem Quotable.surrounded {text : String} (quotable : Quotable text) (before behind : String)
    (plain : ∀ c ∈ before.toList ++ behind.toList, c ≠ '\'' ∧ c ≠ '"') :
    Quotable (before ++ text ++ behind) := by
  have lacks {quote : Char} (known : quote = '\'' ∨ quote = '"') (lacking : quote ∉ text.toList) :
      quote ∉ (before ++ text ++ behind).toList := by
    intro member
    simp only [String.toList_append, List.mem_append] at member
    have outside (given : quote ∈ before.toList ++ behind.toList) : False := by
      rcases known with single | double
      · exact (plain quote given).1 single
      · exact (plain quote given).2 double
    rcases member with (first | inside) | last
    · exact outside (List.mem_append_left _ first)
    · exact lacking inside
    · exact outside (List.mem_append_right _ last)
  exact quotable.imp (lacks (Or.inl rfl)) (lacks (Or.inr rfl))

section
variable {depth : Nat} {first second : List Char} {firstValue secondValue : Expr}

/-- A call with one argument. -/
theorem operand_call1 (function : String) (isName : Expr.IsName function.toList)
    (callable : function ∉ Expr.testWords) (body : Body depth first firstValue) :
    Operand depth (callChars function.toList first []) (.call function [firstValue]) :=
  Operand.call (.simple isName) callable body (List.forall_mem_nil _)

/-- A call with two arguments. -/
theorem operand_call2 (function : String) (isName : Expr.IsName function.toList)
    (callable : function ∉ Expr.testWords) (body : Body depth first firstValue)
    (secondBody : Body depth second secondValue) :
    Operand depth (callChars function.toList first [second]) (.call function [firstValue, secondValue]) := by
  have bodies : ∀ argument ∈ [(second, secondValue)], Body depth argument.1 argument.2 :=
    List.forall_mem_singleton.mpr secondBody
  exact Operand.call (.simple isName) callable body bodies

end

section
variable {target : String} {targetValue : Expr}

theorem operand_wordCondition (operand : Operand 0 target.toList targetValue) {word : String}
    (quotable : Quotable word) :
    Operand 3 (wordCondition target word).toList (wordExpr targetValue word) := by
  have blank : Operand 0 "' '".toList (.string " ") := by
    have written : '\'' ∉ " ".toList := by decide
    have operand := Operand.string (Or.inr rfl) written
    simpa using operand
  have normal := operand_call1 "normalize-space" (by decide) (by decide) operand.body
  have padded : Operand 2 (callChars "concat".toList "' '".toList
      [callChars "normalize-space".toList target.toList [], "' '".toList])
      (.call "concat" [.string " ", .call "normalize-space" [targetValue], .string " "]) := by
    have bodies : ∀ argument ∈ [(callChars "normalize-space".toList target.toList [],
        Expr.call "normalize-space" [targetValue]), ("' '".toList, Expr.string " ")],
        Body 2 argument.1 argument.2 := by
      simp only [List.forall_mem_cons]
      exact ⟨normal.body, blank.body.mono (Nat.le_succ 1), List.forall_mem_nil _⟩
    exact Operand.call (.simple (by decide)) (by decide) (blank.body.mono (Nat.le_succ 1)) bodies
  have surrounded : Quotable (" " ++ word ++ " ") := quotable.surrounded " " " " (by simp)
  have spaced := (operand_quoteLiteral surrounded).body.mono (Nat.le_add_left 1 2)
  have whole := operand_call2 "contains" (by decide) (by decide) padded.body spaced
  have spelled : (wordCondition target word).toList = callChars "contains".toList
      (callChars "concat".toList "' '".toList
        [callChars "normalize-space".toList target.toList [], "' '".toList])
      [(quoteLiteral (" " ++ word ++ " ")).toList] := by
    delta wordCondition
    simp [callChars]
  rw [spelled]
  exact whole

theorem writes_wordCondition (operand : Operand 0 target.toList targetValue) {word : String}
    (quotable : Quotable word) : Writes (wordCondition target word) (wordExpr targetValue word) := by
  apply writes_of_body (operand_wordCondition operand quotable).body rfl
  delta wordCondition
  simp

/-- The condition on the value of an attribute, for each way of comparing it. -/
theorem writes_attributePath (operand : Operand 0 target.toList targetValue)
    (relation : AttributeMatch) {value : String} (quotable : Quotable value) :
    Writes (attributePath target relation value) (attributeMatchExpr targetValue relation value) := by
  have literal := operand_quoteLiteral quotable
  cases relation with
  | exact =>
      apply writes_of_body (Body.equal operand literal)
      · delta attributePath
        simp
      · simp
        omega
  | word =>
      apply writes_of_body (operand_wordCondition operand quotable).body rfl
      delta wordCondition
      simp
  | start =>
      have call := operand_call2 "starts-with" (by decide) (by decide) operand.body literal.body
      apply writes_of_body call.body
      · delta attributePath
        simp [callChars]
      · simp [callChars]
  | ending =>
      have length := operand_call1 "string-length" (by decide) (by decide) operand.body
      have literalLength := operand_call1 "string-length" (by decide) (by decide) literal.body
      have one : Operand 1 ['1'] (countExpr 1) :=
        (Operand.numeral (.whole (List.cons_ne_nil _ _) (List.forall_mem_singleton.mpr rfl))).mono
          (Nat.zero_le 1)
      have start := Body.differencePlus length literalLength one
      have substring := operand_call2 "substring" (by decide) (by decide)
        (operand.body.mono (Nat.le_succ 1)) start
      apply writes_of_body (Body.equal substring (literal.mono (Nat.zero_le 2)))
      · delta attributePath
        simp [callChars]
      · simp [callChars]
  | inside =>
      have call := operand_call2 "contains" (by decide) (by decide) operand.body literal.body
      apply writes_of_body call.body
      · delta attributePath
        simp [callChars]
      · simp [callChars]
  | dashed =>
      have dashed : Quotable (value ++ "-") := by
        have surrounded := quotable.surrounded "" "-" (by simp)
        rwa [String.empty_append] at surrounded
      have call := operand_call2 "starts-with" (by decide) (by decide) operand.body
        (operand_quoteLiteral dashed).body
      apply writes_of_body (Body.equalOr (operand.mono (Nat.zero_le 1)) (literal.mono (Nat.zero_le 1))
        call)
      · delta attributePath
        simp [callChars]
      · simp [callChars]
        omega

end

theorem isNumeral_toString (n : Nat) : Expr.IsNumeral (toString n).toList ⟨n, 0⟩ := by
  have digits : (toString n).toList = Nat.toDigits 10 n := by simp
  rw [digits]
  exact Expr.isNumeral_digitChars n

/-- The elements along an axis from the node in focus. -/
theorem operand_siblings (axis : Axis) :
    Operand 0 (axis.name.toList ++ [':', ':', '*']) (siblingsExpr axis) := by
  refine Operand.along axis (fun rest => leaves_cons rfl) (fun rest ends => rfl) ?_
  cases axis <;> rfl

theorem writes_countPath (axis : Axis) (arguments : Option (List PseudoArgument)) :
    Option.Rel Writes (countPath? axis.name arguments) (siblingCountExpr? axis arguments) := by
  rw [countPath?, siblingCountExpr?]
  cases childCount? arguments with
  | none => exact .none
  | some count =>
      have call := operand_call1 "count" (by decide) (by decide) (operand_siblings axis).body
      have number := (Operand.numeral (isNumeral_toString (count - 1))).mono (Nat.zero_le 1)
      apply Option.Rel.some
      apply writes_of_body (Body.equal call number)
      · simp [callChars]
      · simp [callChars]

theorem amount_of_isNumeral {chars : List Char} {decimal : Numeral.Decimal}
    (isNumeral : Expr.IsNumeral chars decimal) : amount chars = .number decimal.toFloat := by
  simp only [amount, isNumeral.ofChars?_eq, Option.map_some, Option.getD_some]

theorem body_argumentText {argument : PseudoArgument} (wellFormed : argument.WellFormed) :
    Body 1 (argumentText argument).toList (argumentExpr argument) := by
  cases argument with
  | number text =>
      rcases wellFormed with ⟨chars, decimal, isNumeral, unsigned | signed⟩
      · have value : argumentExpr (.number text) = .number decimal.toFloat := by
          rcases isNumeral.head with ⟨digit, others, spelled, inside⟩
          have different : digit ≠ '-' := by
            rintro rfl
            exact absurd inside (by decide)
          rw [argumentExpr, unsigned]
          split
          · cases spelled
            exact absurd rfl different
          · exact amount_of_isNumeral isNumeral
        rw [value, argumentText, unsigned]
        exact (Operand.numeral isNumeral).body
      · have value : argumentExpr (.number text) = .negate (.number decimal.toFloat) := by
          rw [argumentExpr, signed]
          exact congrArg Expr.negate (amount_of_isNumeral isNumeral)
        rw [value, argumentText, signed]
        exact Body.minus (Operand.numeral isNumeral)
  | string quote content =>
      have spelled : (argumentText (.string quote content)).toList =
          quote :: (content.toList ++ [quote]) := by
        simp [argumentText]
      rw [spelled]
      exact (Operand.string wellFormed.1 wellFormed.2).body

/-- A call with the node in focus and the arguments as they are written. -/
theorem operand_callPath {name : String} (isName : Expr.IsName name.toList)
    (callable : name ∉ Expr.testWords) {arguments : List PseudoArgument}
    (all : ∀ argument ∈ arguments, argument.WellFormed) :
    Operand 2 (callPath name arguments).toList (callExpr name arguments) := by
  have bodies : ∀ argument ∈ arguments.map fun argument =>
      ((argumentText argument).toList, argumentExpr argument), Body 1 argument.1 argument.2 := by
    intro written member
    rcases List.mem_map.mp member with ⟨argument, given, rfl⟩
    exact body_argumentText (all argument given)
  have call := Operand.call (.simple isName) callable Operand.focus.body bodies
  rw [List.map_map, List.map_map] at call
  have spelled : (callPath name arguments).toList = callChars name.toList ['.']
      (arguments.map fun argument => (argumentText argument).toList) := by
    simp [callPath, callChars, List.flatMap_map]
  rw [spelled]
  exact call.mono (Nat.le_succ 1)

theorem length_callPath (name : String) (arguments : List PseudoArgument) :
    3 ≤ (callPath name arguments).toList.length := by
  simp [callPath]
  omega

theorem writes_callPath {name : String} (isName : Expr.IsName name.toList)
    (callable : name ∉ Expr.testWords) {arguments : List PseudoArgument}
    (all : ∀ argument ∈ arguments, argument.WellFormed) :
    Writes (callPath name arguments) (callExpr name arguments) :=
  (operand_callPath isName callable all).body.mono (length_callPath name arguments)

/-- The two translations of a pseudo-class agree on its name. -/
theorem writes_pseudoClass {name : String} (isName : Expr.IsName name.toList)
    (callable : name ∉ Expr.testWords) {arguments : Option (List PseudoArgument)}
    (all : ∀ given, arguments = some given → ∀ argument ∈ given, argument.WellFormed) :
    Option.Rel Writes (pseudoClassPath? name arguments) (pseudoClassExpr? name arguments) := by
  have alone (axis : Axis) : Operand 1 (callChars "not".toList (axis.name.toList ++ [':', ':', '*']) [])
      (.call "not" [siblingsExpr axis]) :=
    operand_call1 "not" (by decide) (by decide) (operand_siblings axis).body
  unfold pseudoClassPath? pseudoClassExpr?
  refine rel_ite (fun _ => writes_countPath .precedingSibling arguments) fun _ => ?_
  refine rel_ite (fun _ => writes_countPath .followingSibling arguments) fun _ => ?_
  cases arguments with
  | some given => exact .some (writes_callPath isName callable (all given rfl))
  | none =>
      dsimp only
      refine rel_ite (fun _ => .some ?_) fun _ => rel_ite (fun _ => .some ?_) fun _ =>
        rel_ite (fun _ => .some ?_) fun _ => rel_ite (fun _ => .some ?_) fun _ =>
        rel_ite (fun _ => .some ?_) fun _ => .some ?_
      · exact writes_of_body (alone .precedingSibling).body rfl (by decide)
      · exact writes_of_body (alone .followingSibling).body rfl (by decide)
      · exact writes_of_body (Body.binary (alone .precedingSibling) (alone .followingSibling)
          (isOperator_connective .and)) rfl (by decide)
      · have children := operand_call1 "not" (by decide) (by decide) Operand.children.body
        exact writes_of_body children.body rfl (by decide)
      · exact writes_of_body (alone .parent).body rfl (by decide)
      · exact writes_callPath isName callable fun _ member => absurd member List.not_mem_nil

theorem test_element {element : ElementName} (wellFormed : element.WellFormed)
    (plain : element.isPlain = true) :
    (∀ rest, Leaves Expr.isBlank ((elementTest element).toList ++ rest)) ∧
    ∀ rest, Expr.EndsName rest →
      Expr.nodeTest ((elementTest element).toList ++ rest) = some (nodeTest element, rest) := by
  cases element with
  | any => exact ⟨fun rest => leaves_cons rfl, fun rest ends => rfl⟩
  | named name =>
      have isName : Expr.IsName name.toList := IsName.chars wellFormed plain
      constructor
      · exact fun rest => isName.solid
      · intro rest ends
        have given := Expr.nodeTest_name (.simple isName) ends
        rwa [String.ofList_toList] at given

/-- Every condition that has a path has an expression, and the path reads back as it. -/
theorem writes_condition (condition : Condition) (wellFormed : condition.WellFormed)
    (plain : condition.isPlain = true) :
    Option.Rel Writes (conditionPath? condition) (conditionExpr? condition) := by
  induction condition with
  | elementName element =>
      rcases test_element wellFormed plain with ⟨solid, reads⟩
      have along := Operand.along .self solid reads (by cases element <;> rfl)
      apply Option.Rel.some
      apply writes_of_body along.body
      · simp [Axis.name]
      · simp [Axis.name]
  | id name =>
      have target : Operand 0 ('@' :: "id".toList) (attributeExpr "id") := Operand.attribute (by decide)
      apply Option.Rel.some
      apply writes_of_body (Body.equal target (operand_quoteLiteral (IsName.quotable wellFormed)))
      · simp
      · simp
  | class_ name =>
      have target : Operand 0 ('@' :: "class".toList) (attributeExpr "class") :=
        Operand.attribute (by decide)
      have spelled : "@class".toList = '@' :: "class".toList := by simp
      rw [← spelled] at target
      apply Option.Rel.some
      exact writes_wordCondition target (IsName.quotable wellFormed)
  | «attribute» name test =>
      have target : Operand 0 ("@" ++ name).toList (attributeExpr name) := by
        rw [String.toList_append]
        exact Operand.attribute (IsName.chars wellFormed.1 plain)
      cases test with
      | none =>
          apply Option.Rel.some
          exact writes_of_body target.body rfl (by simp)
      | some comparison =>
          apply Option.Rel.some
          exact writes_attributePath target comparison.1 (wellFormed.2 comparison rfl)
  | negation inner ih =>
      rw [conditionPath?, conditionExpr?]
      refine rel_map (ih wellFormed plain) fun path value writes => ?_
      have call := operand_call1 "not" (by decide) (by decide) writes
      apply writes_of_body call.body
      · simp [callChars]
      · simp [callChars]
  | pseudoClass name arguments =>
      rw [Condition.isPlain, Bool.and_eq_true] at plain
      have callable : name ∉ Expr.testWords := by simpa using plain.2
      exact writes_pseudoClass (IsName.chars wellFormed.1.1 plain.1) callable wellFormed.2

end Selector

end NodeQuery

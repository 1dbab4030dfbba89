import NodeQuery.Expr.Syntax
import NodeQuery.Proofs.Expr.Grammar
import NodeQuery.Proofs.Text.Peg

/-!
# Reading by the grammar

What the grammar of path expressions matches is what is read, and the expression put together from the
tree is the one that is read.  Each rule is reflected by its reader.  Brackets take a character, so the
expression inside them may be reflected on shorter texts only; an induction on the length of the text
ties the knot.
-/

namespace NodeQuery.Expr

open Text (Reader ParseTree Peg Atomicity Grammar)
open Text.Reader
open Text.Grammar

variable {α : Type} {whole : List Char} {bound : Nat} {atomicity : Atomicity}

theorem blanks_skips (text : List Char) :
    blanks text = some ((), text.dropWhile grammar.isBlank) := rfl

section
variable (whole atomicity)

theorem isClass_wide : IsClass grammar whole atomicity Rule.wide (fun c => decide (0x80 ≤ c.toNat)) :=
  isClass_character

theorem isClass_nameStart : IsClass grammar whole atomicity (.rule .nameStart) isNameStart := by
  have letter : IsClass grammar whole atomicity (.character Char.isAlpha) Char.isAlpha :=
    isClass_character
  have underscore : IsClass grammar whole atomicity (.text "_") (· == '_') := isClass_text rfl
  have all := letter.choice (underscore.choice (isClass_wide whole atomicity))
  apply IsClass.silent rfl
  have same : isNameStart = fun c => c.isAlpha || (c == '_' || decide (0x80 ≤ c.toNat)) := by
    funext c
    rw [isNameStart, Bool.or_assoc]
  rw [same]
  exact all

theorem isClass_nameChar : IsClass grammar whole atomicity (.rule .nameChar) isNameChar := by
  have letter : IsClass grammar whole atomicity (.character Char.isAlphanum) Char.isAlphanum :=
    isClass_character
  have underscore : IsClass grammar whole atomicity (.text "_") (· == '_') := isClass_text rfl
  have minus : IsClass grammar whole atomicity (.text "-") (· == '-') := isClass_text rfl
  have point : IsClass grammar whole atomicity (.text ".") (· == '.') := isClass_text rfl
  have all := letter.choice (underscore.choice (minus.choice (point.choice
    (isClass_wide whole atomicity))))
  apply IsClass.silent rfl
  have same : isNameChar = fun c => c.isAlphanum || (c == '_' || (c == '-' || (c == '.' ||
      decide (0x80 ≤ c.toNat)))) := by
    funext c
    simp only [isNameChar, Bool.or_assoc]
  rw [same]
  exact all

end

theorem isNameChar_of_isNameStart {c : Char} (starts : isNameStart c = true) : isNameChar c = true := by
  simp only [isNameStart, isNameChar, Char.isAlphanum, Bool.or_eq_true] at starts ⊢
  rcases starts with (letter | underscore) | wide
  · exact Or.inl (Or.inl (Or.inl (Or.inl (Or.inl letter))))
  · exact Or.inl (Or.inl (Or.inl (Or.inr underscore)))
  · exact Or.inr wide

/-- Where rules show, one that is not silent shows as a node. -/
theorem reflects_rule (rule : Rule) {reader : Reader α} {meaning : Meaning Rule α}
    (visible : rule.kind ≠ .silent) (open_ : atomicity ≠ .atomic)
    (inside : Reflects grammar whole bound (rule.kind.inside atomicity) rule.body reader meaning) :
    Reflects grammar whole bound atomicity (.rule rule) reader
      (fun value used trees => ∃ parts, meaning value used parts ∧ trees = [.node rule used parts]) :=
  Reflects.node rule visible open_ inside

/-- What is read is the text of a single node of a rule. -/
def Names (rule : Rule) : Meaning Rule (List Char) := fun taken used trees =>
  taken = used ∧ used ≠ [] ∧ ∃ parts, trees = [.node rule used parts]

/-- A simple name, in the atomic place that its rule makes for it. -/
theorem reflects_simpleName :
    Reflects grammar whole bound .atomic Rule.ncname.body simpleName
      (fun taken used trees => taken = used ∧ used ≠ [] ∧ trees = []) :=
  IsClass.front (tight_of_ne grammar (by decide)) (isClass_nameStart whole .atomic)
    (isClass_nameChar whole .atomic) fun _ => isNameChar_of_isNameStart

/-- Inside an atomic rule nothing shows of a simple name. -/
theorem reflects_hiddenName :
    Reflects grammar whole bound .atomic (.rule .ncname) simpleName
      (fun taken used trees => taken = used ∧ used ≠ [] ∧ trees = []) := by
  have inside : Reflects grammar whole bound ((grammar.kind .ncname).inside .atomic)
      (grammar.body .ncname) simpleName _ := reflects_simpleName
  apply inside.rule.mono
  rintro taken used trees ⟨parts, ⟨same, filled, rfl⟩, rfl⟩
  exact ⟨same, filled, rfl⟩

theorem reflects_ncname (open_ : atomicity ≠ .atomic) :
    Reflects grammar whole bound atomicity (.rule .ncname) simpleName (Names .ncname) := by
  apply (reflects_rule .ncname (by decide) open_ reflects_simpleName).mono
  rintro taken used trees ⟨parts, ⟨same, filled, _⟩, shown⟩
  exact ⟨same, filled, parts, shown⟩

/-- A name with at most one colon inside. -/
theorem reflects_qname (open_ : atomicity ≠ .atomic) :
    Reflects grammar whole bound atomicity (.rule .qname) name
      (fun taken used trees =>
        taken.toList = used ∧ used ≠ [] ∧ ∃ parts, trees = [.node .qname used parts]) := by
  have sides : grammar.Tight .atomic := tight_of_ne grammar (by decide)
  have second : Reflects grammar whole bound .atomic (.seq (.text ":") (.rule .ncname))
      (do token ":"; simpleName) (fun rest used trees => used = ':' :: rest) := by
    refine Reflects.tight sides (reflects_token ":") ?_
    rintro _ _ _ ⟨rfl, rfl⟩
    refine reflects_hiddenName.mono ?_
    rintro rest used trees ⟨rfl, _, _⟩
    rfl
  have both : Reflects grammar whole bound .atomic Rule.qname.body name
      (fun taken used _ => taken.toList = used ∧ used ≠ []) := by
    refine Reflects.tight sides reflects_hiddenName ?_
    rintro first used trees ⟨rfl, filled, rfl⟩
    refine second.optional.finish ?_
    rintro (_ | rest) behind others means
    · rcases means with ⟨rfl, rfl⟩
      exact ⟨_, rfl, by simp, by simpa using filled⟩
    · refine ⟨_, rfl, ?_, by simp [filled]⟩
      have given : behind = ':' :: rest := means
      rw [given, String.toList_ofList]
  apply (reflects_rule .qname (by decide) open_ both).mono
  rintro taken used trees ⟨parts, ⟨same, filled⟩, shown⟩
  exact ⟨same, filled, parts, shown⟩

/-- A token shows as a single leaf. -/
def Shows (rule : Rule) : Meaning Rule α := fun _ used trees => used ≠ [] ∧ trees = [.node rule used []]

theorem reflects_keyword {word : String} (isName : IsName word.toList) :
    Reflects grammar whole bound .spaced (.rule (.keyword word)) (keyword word)
      (Shows (.keyword word)) := by
  have sides : grammar.Tight .atomic := tight_of_ne grammar (by decide)
  have body : Reflects grammar whole bound .atomic (Rule.keyword word).body (keyword word)
      (fun _ used trees => used = word.toList ∧ trees = []) := by
    refine reflects_words sides (isClass_nameChar whole .atomic)
      (List.forall_mem_singleton.mpr isName.all) (List.pairwise_singleton _ _) ?_ ?_
    · intro text refused other among same
      rw [List.mem_singleton] at among
      rw [keyword_apply, if_pos (among ▸ same)] at refused
      cases refused
    · intro text value rest given
      rw [keyword_apply] at given
      split at given
      · rename_i front
        cases given
        exact ⟨⟨word, List.mem_singleton_self word, front⟩, rfl, front⟩
      · cases given
  apply (reflects_rule (.keyword word) nofun (by decide) body).mono
  rintro _ used trees ⟨parts, ⟨rfl, rfl⟩, shown⟩
  rcases isName.head with ⟨c, others, spelled, _⟩
  exact ⟨spelled ▸ List.cons_ne_nil c others, shown⟩

theorem reflects_sign {text : String} (filled : text.toList ≠ []) :
    Reflects grammar whole bound .spaced (.rule (.sign text)) (token text) (Shows (.sign text)) := by
  have body : Reflects grammar whole bound .spaced (Rule.sign text).body (token text) _ :=
    reflects_token text
  apply (reflects_rule (.sign text) nofun (by decide) body).mono
  rintro _ used trees ⟨parts, ⟨rfl, rfl⟩, shown⟩
  exact ⟨filled, shown⟩

/-- The operator of a tree combines operands the way it is read to. -/
def Operates : Meaning Rule Operator := fun combine used trees =>
  used ≠ [] ∧ ∃ tree, trees = [tree] ∧ combine? (firstToken tree) = some combine

section
variable {reader : Reader Unit} {rule : Rule} {peg : Peg Rule} {combine : Operator}

/-- A token that is an operator. -/
theorem reflects_operator (combines : combine? rule = some combine)
    (shown : Reflects grammar whole bound .spaced peg reader (Shows rule)) :
    Reflects grammar whole bound .spaced peg (do reader; pure combine) Operates := by
  apply shown.map
  rintro _ used trees ⟨filled, rfl⟩
  exact ⟨filled, _, rfl, combines⟩

/-- Operators of one level, as a rule of their own. -/
theorem reflects_operators {operator : Reader Operator} (visible : rule.kind = .normal)
    (choice : Reflects grammar whole bound .spaced rule.body operator Operates) :
    Reflects grammar whole bound .spaced (.rule rule) operator Operates := by
  have inside : Reflects grammar whole bound (rule.kind.inside .spaced) rule.body operator Operates := by
    rwa [visible]
  apply (reflects_rule rule (by rw [visible]; nofun) (by decide) inside).mono
  rintro combine used trees ⟨parts, ⟨filled, tree, rfl, combines⟩, rfl⟩
  exact ⟨filled, _, rfl, combines⟩

end

theorem reflects_orOperator :
    Reflects grammar whole bound .spaced (.rule (.keyword "or")) orOperator Operates :=
  reflects_operator rfl (reflects_keyword (by decide))

theorem reflects_andOperator :
    Reflects grammar whole bound .spaced (.rule (.keyword "and")) andOperator Operates :=
  reflects_operator rfl (reflects_keyword (by decide))

theorem reflects_equalityOperator :
    Reflects grammar whole bound .spaced (.rule .equalityOp) equalityOperator Operates :=
  reflects_operators rfl ((reflects_operator rfl (reflects_sign (by decide))).choice
    (reflects_operator rfl (reflects_sign (by decide))))

theorem reflects_orderOperator :
    Reflects grammar whole bound .spaced (.rule .relationalOp) orderOperator Operates :=
  reflects_operators rfl ((reflects_operator rfl (reflects_sign (by decide))).choice
    ((reflects_operator rfl (reflects_sign (by decide))).choice
      ((reflects_operator rfl (reflects_sign (by decide))).choice
        (reflects_operator rfl (reflects_sign (by decide))))))

theorem reflects_sumOperator :
    Reflects grammar whole bound .spaced (.rule .additiveOp) sumOperator Operates :=
  reflects_operators rfl ((reflects_operator rfl (reflects_sign (by decide))).choice
    (reflects_operator rfl (reflects_sign (by decide))))

theorem reflects_productOperator :
    Reflects grammar whole bound .spaced (.rule .multiplicativeOp) productOperator Operates :=
  reflects_operators rfl ((reflects_operator rfl (reflects_sign (by decide))).choice
    ((reflects_operator rfl (reflects_keyword (by decide))).choice
      (reflects_operator rfl (reflects_keyword (by decide)))))

theorem axisName_apply (text : List Char) :
    axisName text = (Axis.ofName? (String.ofList (text.takeWhile isNameChar))).map
      fun axis => (axis, text.dropWhile isNameChar) := by
  have taken : run isNameChar text =
      some (text.takeWhile isNameChar, text.dropWhile isNameChar) := rfl
  rw [axisName, bind_of_some taken]
  cases Axis.ofName? (String.ofList (text.takeWhile isNameChar)) <;> rfl

/-- The names of the axes, none of them before one that it begins. -/
def axisWords : List String :=
  ["ancestor-or-self", "ancestor", "attribute", "child", "descendant-or-self", "descendant",
    "following-sibling", "following", "parent", "preceding-sibling", "preceding", "self"]

theorem name_of_ofName? {name : String} {axis : Axis} (found : Axis.ofName? name = some axis) :
    axis.name = name := by
  unfold Axis.ofName? at found
  have same := List.find?_some found
  exact beq_iff_eq.mp same

theorem name_mem_axisWords (axis : Axis) : axis.name ∈ axisWords := by
  cases axis <;> decide

theorem ofName?_of_mem {word : String} (among : word ∈ axisWords) :
    ∃ axis, axis.name = word ∧ Axis.ofName? word = some axis := by
  have known : ∀ word ∈ axisWords, (Axis.ofName? word).isSome = true := by decide
  rcases Option.isSome_iff_exists.mp (known word among) with ⟨axis, found⟩
  exact ⟨axis, name_of_ofName? found, found⟩

theorem reflects_axisName :
    Reflects grammar whole bound .spaced (.rule .axisName) axisName
      (fun axis used trees => Axis.ofName? (String.ofList used) = some axis ∧
        trees = [.node .axisName used []]) := by
  have sides : grammar.Tight .atomic := tight_of_ne grammar (by decide)
  have inside : ∀ word ∈ axisWords, ∀ c ∈ word.toList, isNameChar c = true := by
    intro word among
    rcases ofName?_of_mem among with ⟨axis, rfl, _⟩
    exact (isName_axis axis).all
  have apart : axisWords.Pairwise fun word later => ¬ word.toList <+: later.toList := by
    decide
  have body : Reflects grammar whole bound .atomic Rule.axisName.body axisName
      (fun axis used trees => Axis.ofName? (String.ofList used) = some axis ∧ trees = []) := by
    refine reflects_words sides (isClass_nameChar whole .atomic) inside apart ?_ ?_
    · intro text refused word among same
      rcases ofName?_of_mem among with ⟨axis, _, found⟩
      rw [axisName_apply, same, String.ofList_toList, found] at refused
      cases refused
    · intro text axis rest given
      rw [axisName_apply, Option.map_eq_some_iff] at given
      rcases given with ⟨other, found, same⟩
      cases same
      refine ⟨⟨axis.name, name_mem_axisWords axis, ?_⟩, rfl, found⟩
      rw [name_of_ofName? found, String.toList_ofList]
  apply (reflects_rule .axisName (by decide) (by decide) body).mono
  rintro axis used trees ⟨parts, ⟨found, rfl⟩, shown⟩
  exact ⟨found, shown⟩

theorem testWord_apply (text : List Char) :
    testWord text = if String.ofList (text.takeWhile isNameChar) ∈ testWords then
      some ((), text.dropWhile isNameChar) else none := by
  have spelled (word : String) :
      text.takeWhile isNameChar = word.toList ↔ String.ofList (text.takeWhile isNameChar) = word := by
    rw [← String.toList_inj, String.toList_ofList]
  simp only [testWord, orElse_apply, keyword_apply, spelled, testWords, List.mem_cons,
    List.not_mem_nil, or_false]
  by_cases node : String.ofList (text.takeWhile isNameChar) = "node" <;>
    by_cases text_ : String.ofList (text.takeWhile isNameChar) = "text" <;>
    by_cases comment : String.ofList (text.takeWhile isNameChar) = "comment" <;>
    simp [node, text_, comment]

theorem reflects_testWord :
    Reflects grammar whole bound .spaced (.rule .kindName) testWord (fun _ _ _ => True) := by
  have sides : grammar.Tight .atomic := tight_of_ne grammar (by decide)
  have names : ∀ word ∈ testWords, IsName word.toList := by decide
  have apart : testWords.Pairwise fun word later => ¬ word.toList <+: later.toList := by
    decide
  have body : Reflects grammar whole bound .atomic Rule.kindName.body testWord
      (fun _ _ trees => True ∧ trees = []) := by
    refine reflects_words sides (isClass_nameChar whole .atomic) (fun word among => (names word among).all)
      apart ?_ ?_
    · intro text refused word among same
      have listed : word ∈ testWords := among
      rw [testWord_apply, same, String.ofList_toList, if_pos listed] at refused
      cases refused
    · intro text value rest given
      rw [testWord_apply] at given
      split at given
      · rename_i among
        cases given
        exact ⟨⟨_, among, String.toList_ofList.symm⟩, rfl, trivial⟩
      · cases given
  exact (reflects_rule .kindName (by decide) (by decide) body).mono fun _ _ _ _ => trivial

theorem reflects_quotedBy {quote : Char} {spelled : String} (same : quote.toString = spelled) :
    Reflects grammar whole bound .compound (Rule.between spelled) (quotedBy quote)
      (fun content _ trees => trees = [.node (.quotedInner spelled) content.toList []]) := by
  have between : Reflects grammar whole bound .compound (Rule.between spelled) (quotedBy quote) _ :=
    reflects_between same rfl rfl
  exact between.mono fun _ _ _ means => means.2

theorem reflects_quoted :
    Reflects grammar whole bound .spaced (.rule .stringLiteral) quoted
      (fun content used trees => ∃ quote, trees =
        [.node .stringLiteral used [.node (.quotedInner quote) content.toList []]]) := by
  have double : Reflects grammar whole bound .compound (Rule.between "\"") (quotedBy '"') _ :=
    reflects_quotedBy rfl
  have single : Reflects grammar whole bound .compound (Rule.between "'") (quotedBy '\'') _ :=
    reflects_quotedBy rfl
  have body : Reflects grammar whole bound .compound Rule.stringLiteral.body quoted
      (fun content _ trees => ∃ quote, trees = [.node (.quotedInner quote) content.toList []]) :=
    (double.mono fun _ _ _ same => ⟨_, same⟩).choice (single.mono fun _ _ _ same => ⟨_, same⟩)
  apply (reflects_rule .stringLiteral (by decide) (by decide) body).mono
  rintro content used trees ⟨parts, ⟨quote, rfl⟩, shown⟩
  exact ⟨quote, shown⟩

/-- Digits with a point after, among or before them. -/
def IsNumber (text : List Char) : Prop :=
  ∃ digits fraction, (∀ c ∈ digits, c.isDigit = true) ∧ (∀ c ∈ fraction, c.isDigit = true) ∧
    (text = digits ∧ digits ≠ [] ∨ text = digits ++ '.' :: fraction ∧ ¬ (digits = [] ∧ fraction = []))

theorem ofChars?_of_isNumber {text : List Char} (isNumber : IsNumber text) :
    ∃ decimal, Numeral.Decimal.ofChars? text = some decimal := by
  rcases isNumber with ⟨digits, fraction, inWhole, inFraction, ⟨rfl, filled⟩ | ⟨rfl, filled⟩⟩
  · have split := takeWhile_append_of_leaves inWhole (leaves_nil Char.isDigit)
    rw [List.append_nil] at split
    have some_ : text.isEmpty = false := List.isEmpty_eq_false_iff.mpr filled
    simp only [Numeral.Decimal.ofChars?, split.1, split.2, some_, Bool.false_eq_true, if_false]
    exact ⟨_, rfl⟩
  · have point : Leaves Char.isDigit ('.' :: fraction) := leaves_cons rfl
    have split := takeWhile_append_of_leaves inWhole point
    have all : fraction.all Char.isDigit = true := List.all_eq_true.mpr inFraction
    have some_ : (digits.isEmpty && fraction.isEmpty) = false := by
      rw [Bool.eq_false_iff, ne_eq, Bool.and_eq_true, List.isEmpty_iff, List.isEmpty_iff]
      exact filled
    simp only [Numeral.Decimal.ofChars?, split.1, split.2, all, some_, Bool.not_false, Bool.and_true,
      if_true]
    exact ⟨_, rfl⟩

theorem reflects_numeralText :
    Reflects grammar whole bound .atomic Rule.number.body numeralText
      (fun text used trees => text = used ∧ IsNumber used ∧ trees = []) := by
  have sides : grammar.Tight .atomic := tight_of_ne grammar (by decide)
  have digit : IsClass grammar whole .atomic Rule.digit Char.isDigit := isClass_character
  have fraction : Reflects grammar whole bound .atomic (.seq (.text ".") (.many Rule.digit))
      (do token "."; run Char.isDigit)
      (fun digits used trees =>
        used = '.' :: digits ∧ (∀ c ∈ digits, c.isDigit = true) ∧ trees = []) := by
    refine Reflects.tight sides (reflects_token ".") ?_
    rintro _ _ _ ⟨rfl, rfl⟩
    apply (digit.run sides).mono
    rintro digits _ _ ⟨rfl, all, rfl⟩
    exact ⟨rfl, all, rfl⟩
  apply Reflects.choice
  · refine Reflects.tight sides (digit.run1 sides) ?_
    rintro digits _ _ ⟨rfl, filled, all, rfl⟩
    refine fraction.optional.finish ?_
    rintro (_ | given) used trees means
    · rcases means with ⟨rfl, rfl⟩
      refine ⟨digits, rfl, (List.append_nil digits).symm, ?_, rfl⟩
      exact ⟨digits, [], all, nofun, Or.inl ⟨List.append_nil digits, filled⟩⟩
    · rcases means with ⟨rfl, inFraction, rfl⟩
      exact ⟨_, rfl, rfl,
        ⟨digits, given, all, inFraction, Or.inr ⟨rfl, fun both => filled both.1⟩⟩, rfl⟩
  · refine Reflects.tight sides (reflects_token ".") ?_
    rintro _ _ _ ⟨rfl, rfl⟩
    apply (digit.run1 sides).map
    rintro digits _ _ ⟨rfl, filled, all, rfl⟩
    exact ⟨rfl, ⟨[], digits, nofun, all, Or.inr ⟨rfl, fun both => filled both.2⟩⟩, rfl⟩

/-- The digits of a number can always be read as one. -/
theorem reflects_numeral :
    Reflects grammar whole bound .spaced (.rule .number) numeral
      (fun amount used trees => ∃ decimal, Numeral.Decimal.ofChars? used = some decimal ∧
        amount = decimal.toFloat ∧ trees = [.node .number used []]) := by
  have body : Reflects grammar whole bound (Rule.number.kind.inside .spaced) Rule.number.body
      numeralText _ := reflects_numeralText
  refine Reflects.finish (reflects_rule .number (by decide) (by decide) body) ?_
  rintro text used trees ⟨parts, ⟨rfl, isNumber, rfl⟩, shown⟩
  rcases ofChars?_of_isNumber isNumber with ⟨decimal, found⟩
  exact ⟨decimal.toFloat, by rw [found], decimal, found, rfl, shown⟩

/-- What is read as a node test is built from the leaves of the tree of one. -/
def LeafTests : Meaning Rule NodeTest := fun test _ leaves =>
  ∀ around outer used, buildNodeTest? (.node .nodeTest around [.node outer used leaves]) = some test

/-- What is read as a node test is built from its tree. -/
def Tests : Meaning Rule NodeTest := fun test used trees =>
  ∃ parts, trees = [.node .nodeTest used parts] ∧
    buildNodeTest? (.node .nodeTest used parts) = some test

theorem reflects_wordTest {word : String} {meaning : NodeTest} (isName : IsName word.toList)
    (builds : ∀ text parts around outer used,
      buildNodeTest? (.node .nodeTest around [.node outer used [.node (.wordTest word) text parts]]) =
        some meaning) :
    Reflects grammar whole bound .spaced (.rule (.wordTest word)) (wordTest word meaning) LeafTests := by
  have body : Reflects grammar whole bound .spaced (Rule.wordTest word).body (wordTest word meaning)
      (fun test _ _ => test = meaning) := by
    refine (reflects_keyword isName).spaced blanks_skips fun _ _ _ _ _ => ?_
    refine (reflects_token "(").spaced blanks_skips fun _ _ _ _ _ => ?_
    exact (reflects_token ")").map fun _ _ _ _ => rfl
  apply (reflects_rule (.wordTest word) nofun (by decide) body).mono
  rintro test used trees ⟨parts, rfl, rfl⟩
  exact builds used parts

theorem reflects_kindTest :
    Reflects grammar whole bound .spaced (.rule .kindTest) kindTest
      (fun test _ trees => ∀ around, buildNodeTest? (.node .nodeTest around trees) = some test) := by
  have body : Reflects grammar whole bound .spaced Rule.kindTest.body kindTest LeafTests :=
    (reflects_wordTest (by decide) fun _ _ _ _ _ => rfl).choice
      ((reflects_wordTest (by decide) fun _ _ _ _ _ => rfl).choice
        (reflects_wordTest (by decide) fun _ _ _ _ _ => rfl))
  apply (reflects_rule .kindTest (by decide) (by decide) body).mono
  rintro test used trees ⟨parts, builds, rfl⟩
  exact fun around => builds around .kindTest used

theorem reflects_nameTest :
    Reflects grammar whole bound .spaced (.rule .nameTest) nameTest
      (fun test _ trees => ∀ around, buildNodeTest? (.node .nodeTest around trees) = some test) := by
  have star : Reflects grammar whole bound .spaced (.rule .wildcard) (do token "*"; pure .anyName)
      LeafTests := by
    have text : Reflects grammar whole bound .spaced Rule.wildcard.body (token "*") _ :=
      reflects_token "*"
    apply (reflects_rule .wildcard (by decide) (by decide) text).map
    rintro _ used trees ⟨parts, _, rfl⟩
    exact fun _ _ _ => rfl
  have prefixed : Reflects grammar whole bound .spaced (.rule .prefixWildcard)
      (do
        let first ← simpleName
        token ":*"
        pure (.anyNameWithPrefix (String.ofList first))) LeafTests := by
    have text : Reflects grammar whole bound .compound Rule.prefixWildcard.body
        (do
          let first ← simpleName
          token ":*"
          pure (NodeTest.anyNameWithPrefix (String.ofList first)))
        (fun test _ trees => ∃ parts first, trees = [.node .ncname first parts] ∧
          test = NodeTest.anyNameWithPrefix (String.ofList first)) := by
      have sides : grammar.Tight .compound := tight_of_ne grammar (by decide)
      refine Reflects.tight sides (reflects_ncname (by decide)) ?_
      rintro first _ _ ⟨rfl, _, parts, rfl⟩
      apply (reflects_token ":*").map
      rintro _ _ _ ⟨rfl, rfl⟩
      exact ⟨parts, first, rfl, rfl⟩
    apply (reflects_rule .prefixWildcard (by decide) (by decide) text).mono
    rintro test used trees ⟨leaves, ⟨parts, first, rfl, rfl⟩, rfl⟩
    exact fun _ _ _ => rfl
  have exact_ : Reflects grammar whole bound .spaced (.rule .qname)
      (do let exact ← name; pure (.named exact)) LeafTests := by
    apply (reflects_qname (by decide)).map
    rintro taken used trees ⟨rfl, _, parts, rfl⟩ around outer text
    rw [buildNodeTest?, String.ofList_toList]
  have body : Reflects grammar whole bound .spaced Rule.nameTest.body nameTest LeafTests :=
    star.choice (prefixed.choice exact_)
  apply (reflects_rule .nameTest (by decide) (by decide) body).mono
  rintro test used trees ⟨parts, builds, rfl⟩
  exact fun around => builds around .nameTest used

theorem reflects_nodeTest :
    Reflects grammar whole bound .spaced (.rule .nodeTest) nodeTest Tests := by
  have body : Reflects grammar whole bound .spaced Rule.nodeTest.body nodeTest _ :=
    reflects_kindTest.choice reflects_nameTest
  apply (reflects_rule .nodeTest (by decide) (by decide) body).mono
  rintro test used trees ⟨parts, builds, rfl⟩
  exact ⟨parts, rfl, builds used⟩

/-- An axis with the colons behind it. -/
theorem reflects_axisSpec :
    Reflects grammar whole bound .spaced (.rule .axisSpec)
      (do
        let axis ← axisName
        blanks
        token "::"
        pure axis)
      (fun axis used trees => ∃ name, Axis.ofName? (String.ofList name) = some axis ∧
        trees = [.node .axisSpec used [.node .axisName name []]]) := by
  have body : Reflects grammar whole bound .spaced Rule.axisSpec.body
      (do
        let axis ← axisName
        blanks
        token "::"
        pure axis)
      (fun axis _ trees => ∃ name, Axis.ofName? (String.ofList name) = some axis ∧
        trees = [.node .axisName name []]) := by
    refine reflects_axisName.spaced blanks_skips ?_
    rintro axis name _ gap ⟨found, rfl⟩
    apply (reflects_token "::").map
    rintro _ _ _ ⟨rfl, rfl⟩
    exact ⟨name, found, rfl⟩
  apply (reflects_rule .axisSpec (by decide) (by decide) body).mono
  rintro axis used trees ⟨parts, ⟨name, found, rfl⟩, rfl⟩
  exact ⟨name, found, rfl⟩

/-- What is read is the axis and the test that the trees inside an axis step are built into. -/
def BuildsAxis : Meaning Rule (Axis × NodeTest) := fun taken _ parts =>
  buildAxisAndTest? .child none parts = some taken

theorem reflects_axisAndTest :
    Reflects grammar whole bound .spaced (.rule .axisStep) axisAndTest
      (fun taken used trees => ∃ parts, buildAxisAndTest? .child none parts = some taken ∧
        trees = [.node .axisStep used parts]) := by
  have named : Reflects grammar whole bound .spaced (.seq (.rule .axisSpec) (.rule .nodeTest))
      (do
        let axis ← axisName
        blanks
        token "::"
        blanks
        let test ← nodeTest
        pure (axis, test)) BuildsAxis := by
    have flat : (do
        let axis ← axisName
        blanks
        token "::"
        blanks
        let test ← nodeTest
        pure (axis, test) : Reader (Axis × NodeTest)) = (do
        let axis ← (do
          let axis ← axisName
          blanks
          token "::"
          pure axis : Reader Axis)
        blanks
        let test ← nodeTest
        pure (axis, test)) := by
      simp only [bind_assoc, pure_bind]
    rw [flat]
    refine reflects_axisSpec.spaced blanks_skips ?_
    rintro axis _ _ _ ⟨name, found, rfl⟩
    apply reflects_nodeTest.map
    rintro test text _ ⟨parts, rfl, builds⟩
    change (do
      let named ← Axis.ofName? (String.ofList name)
      let given ← buildNodeTest? (.node .nodeTest text parts)
      buildAxisAndTest? named (some given) []) = some (axis, test)
    rw [found, builds]
    rfl
  have attribute_ : Reflects grammar whole bound .spaced (.seq (.rule (.sign "@")) (.rule .nodeTest))
      (do
        token "@"
        blanks
        let test ← nodeTest
        pure (.attribute, test)) BuildsAxis := by
    refine (reflects_sign (by decide)).spaced blanks_skips ?_
    rintro _ _ _ _ ⟨_, rfl⟩
    apply reflects_nodeTest.map
    rintro test text _ ⟨parts, rfl, builds⟩
    change (do
      let given ← buildNodeTest? (.node .nodeTest text parts)
      buildAxisAndTest? .attribute (some given) []) = some (.attribute, test)
    rw [builds]
    rfl
  have child : Reflects grammar whole bound .spaced (.rule .nodeTest)
      (do let test ← nodeTest; pure (.child, test)) BuildsAxis := by
    apply reflects_nodeTest.map
    rintro test text _ ⟨parts, rfl, builds⟩
    change (do
      let given ← buildNodeTest? (.node .nodeTest text parts)
      buildAxisAndTest? .child (some given) []) = some (.child, test)
    rw [builds]
    rfl
  have body : Reflects grammar whole bound .spaced Rule.axisStep.body axisAndTest BuildsAxis :=
    named.choice (attribute_.choice child)
  apply (reflects_rule .axisStep (by decide) (by decide) body).mono
  rintro taken used trees ⟨parts, builds, shown⟩
  exact ⟨parts, builds, shown⟩

theorem reflects_dotStep :
    Reflects grammar whole bound .spaced (.rule .abbrevStep) dotStep
      (fun taken used trees => ∃ parts, trees = [.node .abbrevStep used parts] ∧
        ∀ others, buildStep? (.node .abbrevStep used parts :: others) = some taken) := by
  have body : Reflects grammar whole bound .spaced Rule.abbrevStep.body dotStep
      (fun taken _ parts => ∀ used others,
        buildStep? (.node .abbrevStep used parts :: others) = some taken) := by
    apply Reflects.choice
    · apply (reflects_sign (by decide)).map
      rintro _ text _ ⟨_, rfl⟩ used others
      rw [buildStep?]
      rfl
    · apply (reflects_sign (by decide)).map
      rintro _ text _ ⟨_, rfl⟩ used others
      rw [buildStep?]
      rfl
  apply (reflects_rule .abbrevStep (by decide) (by decide) body).mono
  rintro taken used trees ⟨parts, builds, shown⟩
  exact ⟨parts, shown, builds used⟩

/-- Slashes, and the steps they stand for. -/
theorem reflects_separator :
    Reflects grammar whole bound .spaced (.rule .pathSep) separator
      (fun between used trees => used ≠ [] ∧ ∃ parts, trees = [.node .pathSep used parts] ∧
        slashSteps (.node .pathSep used parts) = between) := by
  have body : Reflects grammar whole bound .spaced Rule.pathSep.body separator
      (fun between used parts =>
        used ≠ [] ∧ ∀ text, slashSteps (.node .pathSep text parts) = between) := by
    apply Reflects.choice
    · apply (reflects_sign (by decide)).map
      rintro _ text _ ⟨filled, rfl⟩
      exact ⟨filled, fun _ => rfl⟩
    · apply (reflects_sign (by decide)).map
      rintro _ text _ ⟨filled, rfl⟩
      exact ⟨filled, fun _ => rfl⟩
  apply (reflects_rule .pathSep (by decide) (by decide) body).mono
  rintro between used trees ⟨parts, ⟨filled, stands⟩, shown⟩
  exact ⟨filled, parts, shown, stands used⟩

end NodeQuery.Expr

import NodeQuery.Proofs.Text.Peg
import NodeQuery.Proofs.Selector.Counting
import NodeQuery.Selector.Reader

/-!
# Reading conditions by the grammar

What the grammar of selectors matches is what is read, and the condition put together from the tree is the
one written for what is read.  Each rule is reflected by its reader.  A negation stands behind a colon, so
the condition inside it may be reflected on shorter texts only; an induction on the length of the text ties
the knot.
-/

namespace NodeQuery.Selector

open Text (Reader ParseTree Peg Atomicity Grammar)
open Text.Reader
open Text.Grammar

variable {α β : Type} {whole : List Char} {bound : Nat} {atomicity : Atomicity}

/-- No character is a blank to the grammar. -/
theorem tight (atomicity : Atomicity) : grammar.Tight atomicity :=
  tight_of_unblank (fun _ => rfl) atomicity

/-- Where rules show, one that is not silent shows as a node. -/
theorem reflects_rule (rule : Rule) {reader : Reader α} {meaning : Meaning Rule α}
    (visible : rule.kind ≠ .silent) (open_ : atomicity ≠ .atomic)
    (inside : Reflects grammar whole bound (rule.kind.inside atomicity) rule.body reader meaning) :
    Reflects grammar whole bound atomicity (.rule rule) reader
      (fun value used trees => ∃ parts, meaning value used parts ∧ trees = [.node rule used parts]) :=
  Reflects.node rule visible open_ inside

section
variable (whole atomicity)

theorem isClass_blank : IsClass grammar whole atomicity (.rule .ws) isBlank := by
  have space : IsClass grammar whole atomicity (.text " ") (· == ' ') := isClass_text rfl
  have tab : IsClass grammar whole atomicity (.text "\t") (· == '\t') := isClass_text rfl
  have return_ : IsClass grammar whole atomicity (.text "\r") (· == '\r') := isClass_text rfl
  have newline : IsClass grammar whole atomicity (.text "\n") (· == '\n') := isClass_text rfl
  have all := space.choice (tab.choice (return_.choice newline))
  apply IsClass.silent rfl
  have same : isBlank = fun c => c == ' ' || (c == '\t' || (c == '\r' || c == '\n')) := by
    funext c
    simp only [isBlank, Bool.or_assoc]
  rw [same]
  exact all

theorem isClass_wide : IsClass grammar whole atomicity Rule.wide (fun c => decide (0x80 ≤ c.toNat)) :=
  isClass_character

theorem isClass_nameStart : IsClass grammar whole atomicity (.rule .nameStart) isNameStart := by
  have letter : IsClass grammar whole atomicity (.character Char.isAlpha) Char.isAlpha :=
    isClass_character
  have underscore : IsClass grammar whole atomicity (.text "_") (· == '_') := isClass_text rfl
  have all := letter.choice (underscore.choice (isClass_wide whole atomicity))
  apply IsClass.silent rfl
  have same : isNameStart = fun c => c.isAlpha || (c == '_' || decide (0x80 ≤ c.toNat)) := by
    funext c
    rw [isNameStart, Bool.or_assoc]
  rw [same]
  exact all

theorem isClass_nameChar : IsClass grammar whole atomicity (.rule .nameChar) isNameChar := by
  have letter : IsClass grammar whole atomicity (.character Char.isAlphanum) Char.isAlphanum :=
    isClass_character
  have underscore : IsClass grammar whole atomicity (.text "_") (· == '_') := isClass_text rfl
  have minus : IsClass grammar whole atomicity (.text "-") (· == '-') := isClass_text rfl
  have all := letter.choice (underscore.choice (minus.choice (isClass_wide whole atomicity)))
  apply IsClass.silent rfl
  have same : isNameChar = fun c => c.isAlphanum || (c == '_' || (c == '-' ||
      decide (0x80 ≤ c.toNat))) := by
    funext c
    simp only [isNameChar, Bool.or_assoc]
  rw [same]
  exact all

end

theorem isNameChar_of_isNameStart {c : Char} (starts : isNameStart c = true) : isNameChar c = true := by
  simp only [isNameStart, isNameChar, Char.isAlphanum, Bool.or_eq_true] at starts ⊢
  rcases starts with (letter | underscore) | wide
  · exact Or.inl (Or.inl (Or.inl (Or.inl letter)))
  · exact Or.inl (Or.inl (Or.inr underscore))
  · exact Or.inr wide

theorem reflects_blanks :
    Reflects grammar whole bound atomicity Rule.blanks blanks (fun _ _ trees => trees = []) :=
  ((isClass_blank whole atomicity).run (tight atomicity)).map fun _ _ _ means => means.2.2

/-- A name, inside the rule for one. -/
theorem reflects_nameBody :
    Reflects grammar whole bound atomicity Rule.ident.body name
      (fun taken used trees => taken.toList = used ∧ used ≠ [] ∧ trees = []) := by
  refine Reflects.tight (tight atomicity) (reflects_token "-").optional ?_
  rintro sign used trees means
  have front : Reflects grammar whole bound atomicity (.seq (.rule .nameStart) (.many (.rule .nameChar)))
      (do
        let taken ← run isNameChar
        guard (taken.head?.any isNameStart)
        pure (String.ofList (if sign.isSome then '-' :: taken else taken))) _ :=
    IsClass.front (tight atomicity) (isClass_nameStart whole atomicity) (isClass_nameChar whole atomicity)
      fun _ => isNameChar_of_isNameStart
  apply front.mono
  rintro _ behind _ ⟨rfl, filled, rfl⟩
  cases sign with
  | none =>
      rcases means with ⟨rfl, rfl⟩
      exact ⟨String.toList_ofList, filled, rfl⟩
  | some _ =>
      rcases means with ⟨rfl, rfl⟩
      exact ⟨String.toList_ofList, nofun, rfl⟩

/-- What is read is the text of a single leaf of a rule. -/
def Leaf (rule : Rule) : Meaning Rule String := fun taken used trees =>
  taken.toList = used ∧ used ≠ [] ∧ trees = [.node rule used []]

theorem reflects_ident (open_ : atomicity ≠ .atomic) :
    Reflects grammar whole bound atomicity (.rule .ident) name (Leaf .ident) := by
  apply (reflects_rule .ident (by decide) open_ reflects_nameBody).mono
  rintro taken used trees ⟨_, ⟨same, filled, rfl⟩, shown⟩
  exact ⟨same, filled, shown⟩

/-- A rule that a name is all of. -/
theorem reflects_named (rule : Rule) (kind : rule.kind = .atomic) (body : rule.body = .rule .ident)
    (open_ : atomicity ≠ .atomic) :
    Reflects grammar whole bound atomicity (.rule rule) name (Leaf rule) := by
  have inside : Reflects grammar whole bound (rule.kind.inside atomicity) rule.body name
      (fun taken used trees => taken.toList = used ∧ used ≠ [] ∧ trees = []) := by
    rw [kind, body]
    have hidden : Reflects grammar whole bound ((grammar.kind .ident).inside .atomic)
        (grammar.body .ident) name _ := reflects_nameBody
    apply hidden.rule.mono
    rintro taken used trees ⟨parts, ⟨same, filled, rfl⟩, rfl⟩
    exact ⟨same, filled, rfl⟩
  apply (reflects_rule rule (by rw [kind]; nofun) open_ inside).mono
  rintro taken used trees ⟨_, ⟨same, filled, rfl⟩, shown⟩
  exact ⟨same, filled, shown⟩

/-- A string in quotes of either kind, and what is made of its quotes and its content. -/
theorem reflects_string (form : Char → String → α) :
    Reflects grammar whole bound .spaced (.rule .string)
      ((do let content ← quotedBy '"'; pure (form '"' content)) <|>
        (do let content ← quotedBy '\''; pure (form '\'' content)))
      (fun value used trees => ∃ quote content inner, (quote = '"' ∨ quote = '\'') ∧
        value = form quote content ∧ used = quote :: (content.toList ++ [quote]) ∧
        trees = [.node .string used [.node (.quotedInner inner) content.toList []]]) := by
  have one (quote : Char) (spelled : String) (same : quote.toString = spelled)
      (among : quote = '"' ∨ quote = '\'') :
      Reflects grammar whole bound .compound (Rule.between spelled)
        (do let content ← quotedBy quote; pure (form quote content))
        (fun value used trees => ∃ quote content inner, (quote = '"' ∨ quote = '\'') ∧
          value = form quote content ∧ used = quote :: (content.toList ++ [quote]) ∧
          trees = [.node (.quotedInner inner) content.toList []]) := by
    have between : Reflects grammar whole bound .compound (Rule.between spelled) (quotedBy quote) _ :=
      reflects_between same rfl rfl
    apply between.map
    rintro content used trees ⟨same, shown⟩
    exact ⟨quote, content, _, among, rfl, same, shown⟩
  have body := (one '"' "\"" rfl (Or.inl rfl)).choice (one '\'' "'" rfl (Or.inr rfl))
  apply (reflects_rule .string (by decide) (by decide) body).mono
  rintro value used trees ⟨_, ⟨quote, content, inner, among, made, same, rfl⟩, rfl⟩
  exact ⟨quote, content, inner, among, made, same, rfl⟩

/-- A number begins with a minus sign or a digit. -/
theorem reflects_number :
    Reflects grammar whole bound .spaced (.rule .number) numeral
      (fun taken used trees => taken.toList = used ∧ used ≠ [] ∧ used.head? ≠ some '+' ∧
        trees = [.node .number used []]) := by
  have sides : grammar.Tight .atomic := tight .atomic
  have digit : IsClass grammar whole .atomic Rule.digit Char.isDigit := isClass_character
  have fraction : Reflects grammar whole bound .atomic
      (.seq (.text ".") (.seq Rule.digit (.many Rule.digit))) (do token "."; run1 Char.isDigit)
      (fun digits used trees => used = '.' :: digits ∧ trees = []) := by
    refine Reflects.tight sides (reflects_token ".") ?_
    rintro _ _ _ ⟨rfl, rfl⟩
    apply (digit.run1 sides).mono
    rintro digits _ _ ⟨rfl, _, _, rfl⟩
    exact ⟨rfl, rfl⟩
  have body : Reflects grammar whole bound .atomic Rule.number.body numeral
      (fun taken used trees => taken.toList = used ∧ used ≠ [] ∧ used.head? ≠ some '+' ∧ trees = []) := by
    refine Reflects.tight sides (reflects_token "-").optional ?_
    intro sign minus signTrees signMeans
    refine Reflects.tight sides (digit.run1 sides) ?_
    rintro digits _ _ ⟨rfl, filled, all, rfl⟩
    refine fraction.optional.map ?_
    intro rest behind restTrees restMeans
    rcases List.exists_cons_of_ne_nil filled with ⟨first, others, rfl⟩
    have unsigned : first ≠ '+' := by
      rintro rfl
      exact absurd (all '+' List.mem_cons_self) (by decide)
    -- The minus sign and the fraction are there or not, each on its own.
    rcases sign with _ | _ <;> rcases rest with _ | rest <;> rcases signMeans with ⟨rfl, rfl⟩ <;>
      rcases restMeans with ⟨rfl, rfl⟩
    · exact ⟨by simp, by simp, by simpa using unsigned, rfl⟩
    · exact ⟨by simp, by simp, by simpa using unsigned, rfl⟩
    · exact ⟨by simp, by simp, by simp, rfl⟩
    · exact ⟨by simp, by simp, by simp, rfl⟩
  apply (reflects_rule .number (by decide) (by decide) body).mono
  rintro taken used trees ⟨_, ⟨same, filled, unsigned, rfl⟩, shown⟩
  exact ⟨same, filled, unsigned, shown⟩

/-- A single tree is put together to the condition that is written for what is read, and there is none
exactly if something in the tree is miscounted. -/
def Renders : Meaning Rule Condition := fun condition used trees =>
  used ≠ [] ∧ ∃ tree, trees = [tree] ∧ treeCondition? tree = conditionPath? condition ∧
    (Miscounted tree ↔ conditionPath? condition = none)

/-- The tree of a condition stands inside that of a rule. -/
def RendersInside (rule : Rule) : Meaning Rule Condition := fun condition used trees =>
  ∃ inner, trees = [.node rule used inner] ∧ Renders condition used inner

theorem reflects_elementName :
    Reflects grammar whole bound .spaced (.rule .typeSel) elementName
      (fun element used trees => used ≠ [] ∧ elementTest element = String.ofList used ∧
        ∃ parts, trees = [.node .typeSel used parts] ∧ ¬ Miscounted (.node .typeSel used parts)) := by
  have star : Reflects grammar whole bound .spaced (.rule .universal) (token "*")
      (fun _ used trees => used = ['*'] ∧ trees = [.node .universal used []]) := by
    apply (reflects_rule .universal (by decide) (by decide) (reflects_token "*")).mono
    rintro _ used trees ⟨_, ⟨same, rfl⟩, shown⟩
    exact ⟨same, shown⟩
  have any : Reflects grammar whole bound .spaced (.rule .universal) (do token "*"; pure .any)
      (fun element used parts => used ≠ [] ∧ elementTest element = String.ofList used ∧
        ∃ rule leaf, parts = [.node rule leaf []] ∧ rule ≠ .barePseudo ∧ rule ≠ .functionalPseudo) := by
    apply star.map
    rintro _ _ _ ⟨rfl, rfl⟩
    exact ⟨nofun, rfl, _, _, rfl, by decide, by decide⟩
  have named : Reflects grammar whole bound .spaced (.rule .elementName)
      (do let exact ← name; pure (.named exact))
      (fun element used parts => used ≠ [] ∧ elementTest element = String.ofList used ∧
        ∃ rule leaf, parts = [.node rule leaf []] ∧ rule ≠ .barePseudo ∧ rule ≠ .functionalPseudo) := by
    apply (reflects_named .elementName rfl rfl (by decide)).map
    rintro taken _ _ ⟨rfl, filled, rfl⟩
    exact ⟨filled, String.ofList_toList.symm, _, _, rfl, by decide, by decide⟩
  apply (reflects_rule .typeSel (by decide) (by decide) (any.choice named)).mono
  rintro element used trees ⟨_, ⟨filled, same, rule, leaf, rfl, notBare, notFunctional⟩, rfl⟩
  refine ⟨filled, same, _, rfl, ?_⟩
  rw [miscounted_node (by decide) (by decide)]
  simpa using not_miscounted_leaf notBare notFunctional leaf

/-- A sign and a name behind it, as a rule. -/
theorem reflects_signed (rule : Rule) {sign : String} (some_ : sign.toList ≠ [])
    (kind : rule.kind = .normal) (body : rule.body = .seq (.text sign) (.rule .ident))
    (other : rule ≠ .barePseudo ∧ rule ≠ .functionalPseudo) {form : String → Condition}
    (put : ∀ text taken, treeCondition? (.node rule text [.node .ident taken []]) =
      conditionPath? (form (String.ofList taken)))
    (known : ∀ taken, (conditionPath? (form taken)).isSome) :
    Reflects grammar whole bound .spaced (.rule rule)
      (do token sign; let exact ← name; pure (form exact)) Renders := by
  have inside : Reflects grammar whole bound (rule.kind.inside .spaced) rule.body
      (do token sign; let exact ← name; pure (form exact))
      (fun condition used parts => used ≠ [] ∧ ∃ taken, condition = form (String.ofList taken) ∧
        parts = [.node .ident taken []]) := by
    rw [kind, body]
    refine Reflects.tight (tight _) (reflects_token sign) ?_
    rintro _ _ _ ⟨rfl, rfl⟩
    apply (reflects_ident (by decide)).map
    rintro taken _ _ ⟨rfl, _, rfl⟩
    exact ⟨by simp [some_], taken.toList, by rw [String.ofList_toList], rfl⟩
  apply (reflects_rule rule (by rw [kind]; nofun) (by decide) inside).mono
  rintro _ used _ ⟨_, ⟨filled, taken, rfl, rfl⟩, rfl⟩
  refine ⟨filled, _, rfl, put used taken, iff_of_false ?_ ?_⟩
  · rw [miscounted_node other.1 other.2]
    simpa using not_miscounted_leaf (by decide) (by decide) taken
  · exact Option.isSome_iff_ne_none.mp (known _)

theorem reflects_idCondition :
    Reflects grammar whole bound .spaced (.rule .idSel) idCondition Renders :=
  reflects_signed .idSel (by decide) rfl rfl (by decide) (fun _ _ => rfl) fun _ => rfl

theorem reflects_classCondition :
    Reflects grammar whole bound .spaced (.rule .classSel) classCondition Renders :=
  reflects_signed .classSel (by decide) rfl rfl (by decide) (fun _ _ => rfl) fun _ => rfl

theorem reflects_attributeMatch :
    Reflects grammar whole bound .spaced (.rule .attrOp) attributeMatch
      (fun relation used trees => used ≠ [] ∧ ∃ leaf,
        trees = [.node .attrOp used [.node (.attrSign relation) leaf []]]) := by
  have sign (relation : AttributeMatch) (text : String) (some_ : text.toList ≠ [])
      (body : (Rule.attrSign relation).body = .text text) :
      Reflects grammar whole bound .spaced (.rule (.attrSign relation)) (do token text; pure relation)
        (fun relation used parts => used ≠ [] ∧ ∃ leaf,
          parts = [.node (.attrSign relation) leaf []]) := by
    have inside : Reflects grammar whole bound ((Rule.attrSign relation).kind.inside .spaced)
        (Rule.attrSign relation).body (token text) _ := body ▸ reflects_token text
    apply (reflects_rule (.attrSign relation) nofun (by decide) inside).map
    rintro _ used _ ⟨_, ⟨rfl, rfl⟩, rfl⟩
    exact ⟨some_, _, rfl⟩
  have body := (sign .word "~=" (by decide) rfl).choice
    ((sign .start "^=" (by decide) rfl).choice
    ((sign .ending "$=" (by decide) rfl).choice
    ((sign .inside "*=" (by decide) rfl).choice
    ((sign .dashed "|=" (by decide) rfl).choice
      (sign .exact "=" (by decide) rfl)))))
  apply (reflects_rule .attrOp (by decide) (by decide) body).mono
  rintro relation used _ ⟨_, ⟨filled, leaf, rfl⟩, rfl⟩
  exact ⟨filled, leaf, rfl⟩

theorem reflects_attributeValue :
    Reflects grammar whole bound .spaced (.rule .attrValue) attributeValue
      (fun value _ trees => ∃ tree, trees = [tree] ∧ literalValue? tree = some value ∧
        ¬ Miscounted tree) := by
  let Gives : Meaning Rule String := fun value _ parts =>
    (∀ used, literalValue? (.node .attrValue used parts) = some value) ∧ ∀ part ∈ parts, ¬ Miscounted part
  have string : Reflects grammar whole bound .spaced (.rule .string) (quotedBy '"' <|> quotedBy '\'')
      Gives := by
    have quoted : Reflects grammar whole bound .spaced (.rule .string) _ _ :=
      reflects_string fun _ content => content
    simp only [bind_pure] at quoted
    apply quoted.mono
    rintro _ used _ ⟨_, content, inner, _, rfl, _, rfl⟩
    refine ⟨fun _ => ?_, ?_⟩
    · exact congrArg some String.ofList_toList
    · simp [miscounted_node]
  have named : Reflects grammar whole bound .spaced (.rule .ident) name Gives := by
    apply (reflects_ident (by decide)).mono
    rintro taken _ _ ⟨rfl, _, rfl⟩
    exact ⟨fun _ => congrArg some String.ofList_toList, by simp [not_miscounted_leaf]⟩
  have number : Reflects grammar whole bound .spaced (.rule .number) numeral Gives := by
    apply reflects_number.mono
    rintro taken _ _ ⟨rfl, _, _, rfl⟩
    exact ⟨fun _ => congrArg some String.ofList_toList, by simp [not_miscounted_leaf]⟩
  have body : Reflects grammar whole bound .spaced Rule.attrValue.body attributeValue Gives := by
    have all := string.choice (named.choice number)
    rwa [Reader.orElse_assoc] at all
  apply (reflects_rule .attrValue (by decide) (by decide) body).mono
  rintro value used _ ⟨parts, ⟨given, calm⟩, rfl⟩
  refine ⟨_, rfl, given used, ?_⟩
  rw [miscounted_node (by decide) (by decide)]
  simpa using calm

theorem reflects_attributeCondition :
    Reflects grammar whole bound .spaced (.rule .attrib) attributeCondition Renders := by
  have test : Reflects grammar whole bound .spaced
      (.seq (.rule .attrOp) (.seq Rule.blanks (.seq (.rule .attrValue) Rule.blanks)))
      (do
        let comparison ← attributeMatch
        blanks
        let value ← attributeValue
        blanks
        pure (comparison, value))
      (fun test _ parts => ∃ sign literal, parts = [sign, literal] ∧
        attributeMatch? sign = some test.1 ∧ literalValue? literal = some test.2 ∧
        ¬ Miscounted sign ∧ ¬ Miscounted literal) := by
    refine Reflects.tight (tight _) reflects_attributeMatch ?_
    rintro relation used _ ⟨_, leaf, rfl⟩
    refine Reflects.tight (tight _) reflects_blanks ?_
    rintro _ _ _ rfl
    refine Reflects.tight (tight _) reflects_attributeValue ?_
    rintro value _ _ ⟨literal, rfl, given, calm⟩
    apply reflects_blanks.map
    rintro _ _ _ rfl
    refine ⟨_, literal, rfl, rfl, given, ?_, calm⟩
    simp [miscounted_node]
  have body : Reflects grammar whole bound .spaced Rule.attrib.body attributeCondition
      (fun condition used parts => used ≠ [] ∧
        attributeCondition? parts = conditionPath? condition ∧
        (conditionPath? condition).isSome ∧ ∀ part ∈ parts, ¬ Miscounted part) := by
    refine Reflects.tight (tight _) (reflects_token "[") ?_
    rintro _ _ _ ⟨rfl, rfl⟩
    refine Reflects.tight (tight _) reflects_blanks ?_
    rintro _ _ _ rfl
    refine Reflects.tight (tight _) (reflects_named .attrName rfl rfl (by decide)) ?_
    rintro target _ _ ⟨rfl, _, rfl⟩
    refine Reflects.tight (tight _) reflects_blanks ?_
    rintro _ _ _ rfl
    refine Reflects.tight (tight _) test.optional ?_
    intro comparison _ parts means
    apply (reflects_token "]").map
    rintro _ _ _ ⟨rfl, rfl⟩
    refine ⟨nofun, ?_⟩
    rcases comparison with _ | ⟨relation, value⟩
    · rcases means with ⟨rfl, rfl⟩
      refine ⟨?_, rfl, by simp [not_miscounted_leaf]⟩
      change some ("@" ++ String.ofList target.toList) = _
      rw [String.ofList_toList]
      rfl
    · rcases means with ⟨sign, literal, rfl, given, valueGiven, calmSign, calmLiteral⟩
      refine ⟨?_, rfl, by simp [not_miscounted_leaf, calmSign, calmLiteral]⟩
      change (literalValue? literal).bind (fun value => (attributeMatch? sign).bind fun relation =>
        some (attributePath ("@" ++ String.ofList target.toList) relation value)) = _
      rw [valueGiven, given, String.ofList_toList]
      rfl
  apply (reflects_rule .attrib (by decide) (by decide) body).mono
  rintro condition used _ ⟨parts, ⟨filled, made, known, calm⟩, rfl⟩
  refine ⟨filled, _, rfl, made, iff_of_false ?_ (Option.isSome_iff_ne_none.mp known)⟩
  rw [miscounted_node (by decide) (by decide)]
  simpa using calm

theorem forall₂_of_each {related : α → ParseTree Rule → Prop} {meaning : Meaning Rule α}
    {values : List α} {trees : List (ParseTree Rule)} (each : meaning.Each values trees)
    (one : ∀ value used trees, meaning value used trees → ∃ tree, trees = [tree] ∧ related value tree) :
    List.Forall₂ related values trees := by
  induction each with
  | nil => exact .nil
  | cons first _ ih =>
      rcases one _ _ _ first with ⟨tree, rfl, holds⟩
      exact .cons holds ih

/-- An item behind a comma means what the item means. -/
theorem reflects_behindComma {rule : Rule} {reader : Reader α} {meaning : Meaning Rule α}
    (item : Reflects grammar whole bound .spaced (.rule rule) reader meaning) :
    Reflects grammar whole bound .spaced (Rule.behindComma rule)
      (do
        blanks
        token ","
        blanks
        reader)
      (fun value used trees => used ≠ [] ∧ ∃ behind, meaning value behind trees) := by
  refine Reflects.tight (tight _) reflects_blanks ?_
  rintro _ _ _ rfl
  refine Reflects.tight (tight _) (reflects_token ",") ?_
  rintro _ _ _ ⟨rfl, rfl⟩
  refine Reflects.tight (tight _) reflects_blanks ?_
  rintro _ _ _ rfl
  apply item.mono
  intro value behind trees means
  exact ⟨by simp, behind, means⟩

/-- A part in round brackets. -/
theorem reflects_bracketed {peg : Peg Rule} {reader : Reader α} {meaning : Meaning Rule α}
    (form : α → β) (part : Reflects grammar whole bound .spaced peg reader meaning) :
    Reflects grammar whole bound .spaced (Rule.bracketed peg)
      (do
        token "("
        blanks
        let value ← reader
        blanks
        token ")"
        pure (form value))
      (fun result _ trees => ∃ value used, result = form value ∧ meaning value used trees) := by
  refine Reflects.tight (tight _) (reflects_token "(") ?_
  rintro _ _ _ ⟨rfl, rfl⟩
  refine Reflects.tight (tight _) reflects_blanks ?_
  rintro _ _ _ rfl
  refine Reflects.tight (tight _) part ?_
  intro value used trees means
  refine Reflects.tight (tight _) reflects_blanks ?_
  rintro _ _ _ rfl
  apply (reflects_token ")").map
  rintro _ _ _ ⟨rfl, rfl⟩
  exact ⟨value, used, rfl, by simpa using means⟩

theorem reflects_pseudoArgument :
    Reflects grammar whole bound .spaced (.rule .pseudoArg) pseudoArgument
      (fun argument _ trees => ∃ tree, trees = [tree] ∧ ArgumentOf argument tree) := by
  have string : Reflects grammar whole bound .spaced (.rule .string)
      ((do let content ← quotedBy '"'; pure (.string '"' content)) <|>
        (do let content ← quotedBy '\''; pure (.string '\'' content)))
      (fun argument used parts => ArgumentOf argument (.node .pseudoArg used parts)) := by
    apply (reflects_string PseudoArgument.string).mono
    rintro _ _ _ ⟨quote, content, inner, among, rfl, rfl, rfl⟩
    exact .string among (by simp [not_miscounted_leaf])
  have number : Reflects grammar whole bound .spaced (.rule .number)
      (do let text ← numeral; pure (.number text))
      (fun argument used parts => ArgumentOf argument (.node .pseudoArg used parts)) := by
    apply reflects_number.map
    rintro taken _ _ ⟨rfl, _, unsigned, rfl⟩
    exact .number unsigned
  have body : Reflects grammar whole bound .spaced Rule.pseudoArg.body pseudoArgument
      (fun argument used parts => ArgumentOf argument (.node .pseudoArg used parts)) := by
    have all := string.choice number
    rwa [Reader.orElse_assoc] at all
  apply (reflects_rule .pseudoArg (by decide) (by decide) body).mono
  rintro argument used _ ⟨parts, of, rfl⟩
  exact ⟨_, rfl, of⟩

theorem reflects_pseudoArguments :
    Reflects grammar whole bound .spaced
      (.optional (.seq (.rule .pseudoArg) (.many (Rule.behindComma .pseudoArg)))) pseudoArguments
      (fun arguments _ trees => List.Forall₂ ArgumentOf arguments trees) := by
  apply Reflects.orPure .nil
  refine Reflects.tight (tight _) reflects_pseudoArgument ?_
  rintro first _ _ ⟨tree, rfl, of⟩
  apply ((reflects_behindComma reflects_pseudoArgument).manyTight (fun _ _ _ means => means.1)
    (tight _)).map
  intro others _ trees each
  exact .cons of (forall₂_of_each each fun _ _ _ means => means.2.elim fun _ given => given)

/-- The tree of a pseudo-class behind its colon. -/
def RendersPseudo : Meaning Rule Condition := fun condition used trees =>
  used ≠ [] ∧ ∃ inner, trees = [inner] ∧
    (∀ text, treeCondition? (.node .pseudo text [inner]) = conditionPath? condition) ∧
    (Miscounted inner ↔ conditionPath? condition = none)

/-- Take a letter in either case. -/
def letter (lower : Char) : Reader Unit
  | [] => none
  | c :: rest => if c.toLower == lower then some ((), rest) else none

theorem reflects_letter (lower : Char) :
    Reflects grammar whole bound atomicity (.character fun c => c.toLower == lower) (letter lower)
      (fun _ used trees => used ≠ [] ∧ trees = []) where
  refuses text _ refused := by
    refine .characterNot fun c front => Bool.eq_false_iff.mpr fun same => ?_
    cases text with
    | nil => cases front
    | cons c rest =>
        cases front
        rw [letter, if_pos same] at refused
        cases refused
  takes text _ rest _ given := by
    cases text with
    | nil => cases given
    | cons c left =>
        rw [letter] at given
        split at given
        · rename_i same
          cases given
          exact ⟨[c], [], rfl, .character same, List.cons_ne_nil _ _, rfl⟩
        · cases given

/-- The word that begins a negation, letter by letter. -/
theorem negationWord_eq : negationWord = (do letter 'n'; letter 'o'; letter 't') := by
  funext text
  rcases text with _ | ⟨n, rest⟩
  · rfl
  rw [bind_apply, letter]
  by_cases first : n.toLower = 'n'
  · rcases rest with _ | ⟨o, rest⟩
    · simp [negationWord, letter, bind_apply, first]
    · by_cases second : o.toLower = 'o'
      · rcases rest with _ | ⟨t, rest⟩ <;> simp [negationWord, letter, bind_apply, first, second]
      · rcases rest with _ | ⟨t, rest⟩ <;> simp [negationWord, letter, bind_apply, first, second]
  · simp [negationWord, first]

theorem reflects_negationWord :
    Reflects grammar whole bound .spaced Rule.notWord negationWord
      (fun _ used trees => used ≠ [] ∧ trees = []) := by
  rw [negationWord_eq]
  refine Reflects.tight (tight _) (reflects_letter 'n') ?_
  rintro _ _ _ ⟨filled, rfl⟩
  refine Reflects.tight (tight _) (reflects_letter 'o') ?_
  rintro _ _ _ ⟨_, rfl⟩
  apply (reflects_letter 't').mono
  rintro _ _ _ ⟨_, rfl⟩
  exact ⟨by simp [filled], rfl⟩

theorem reflects_negation {condition : Reader Condition}
    (sub : Reflects grammar whole bound .spaced (.rule .negationArg) condition
      (RendersInside .negationArg)) :
    Reflects grammar whole bound .spaced (.rule .negation)
      (do
        negationWord
        token "("
        blanks
        let inner ← condition
        blanks
        token ")"
        pure (.negation inner)) RendersPseudo := by
  have body : Reflects grammar whole bound .spaced Rule.negation.body
      (do
        negationWord
        token "("
        blanks
        let inner ← condition
        blanks
        token ")"
        pure (.negation inner))
      (fun result used parts => used ≠ [] ∧ ∃ inner behind, result = Condition.negation inner ∧
        RendersInside .negationArg inner behind parts) := by
    refine Reflects.tight (tight _) reflects_negationWord ?_
    rintro _ word _ ⟨filled, rfl⟩
    apply (reflects_bracketed Condition.negation sub).mono
    rintro result behind parts ⟨inner, used, same, renders⟩
    exact ⟨by simp [filled], inner, used, same, renders⟩
  apply (reflects_rule .negation (by decide) (by decide) body).mono
  rintro _ used _ ⟨_, ⟨filled, inner, behind, rfl, _, rfl, _, tree, rfl, made, miscounted⟩, rfl⟩
  refine ⟨filled, _, rfl, fun text => ?_, ?_⟩
  · rw [treeCondition?, made, conditionPath?]
  · rw [miscounted_node (by decide) (by decide), conditionPath?, Option.map_eq_none_iff, ← miscounted]
    simp [miscounted_node]

theorem reflects_functional :
    Reflects grammar whole bound .spaced (.rule .functionalPseudo)
      (do
        let exact ← name
        token "("
        blanks
        let arguments ← pseudoArguments
        blanks
        token ")"
        pure (.pseudoClass exact (some arguments))) RendersPseudo := by
  have body : Reflects grammar whole bound .spaced Rule.functionalPseudo.body
      (do
        let exact ← name
        token "("
        blanks
        let arguments ← pseudoArguments
        blanks
        token ")"
        pure (.pseudoClass exact (some arguments)))
      (fun condition used parts => used ≠ [] ∧ ∃ exact arguments trees,
        condition = Condition.pseudoClass exact (some arguments) ∧
        parts = .node .pseudoName exact.toList [] :: trees ∧
        List.Forall₂ ArgumentOf arguments trees) := by
    refine Reflects.tight (tight _) (reflects_named .pseudoName rfl rfl (by decide)) ?_
    rintro exact _ _ ⟨rfl, filled, rfl⟩
    apply (reflects_bracketed (fun arguments => Condition.pseudoClass exact (some arguments))
      reflects_pseudoArguments).mono
    rintro _ behind trees ⟨arguments, _, rfl, of⟩
    exact ⟨by simp [filled], exact, arguments, trees, rfl, rfl, of⟩
  apply (reflects_rule .functionalPseudo (by decide) (by decide) body).mono
  rintro _ used _ ⟨_, ⟨filled, exact, arguments, trees, rfl, rfl, of⟩, rfl⟩
  have named : textOf (.node .pseudoName exact.toList []) = exact := String.ofList_toList
  refine ⟨filled, _, rfl, fun text => ?_, ?_⟩
  · rw [treeCondition?, Option.bind_eq_bind, named, functionalCondition?_eq of, conditionPath?]
  · rw [miscounted_functional of (not_miscounted_leaf (by decide) (by decide) _), named, conditionPath?]

theorem reflects_bare :
    Reflects grammar whole bound .spaced (.rule .barePseudo)
      (do let exact ← name; pure (.pseudoClass exact none)) RendersPseudo := by
  have body : Reflects grammar whole bound .spaced Rule.barePseudo.body
      (do let exact ← name; pure (.pseudoClass exact none))
      (fun condition used parts => used ≠ [] ∧ condition = Condition.pseudoClass (String.ofList used) none ∧
        parts = [.node .pseudoName used []]) := by
    apply (reflects_named .pseudoName rfl rfl (by decide)).map
    rintro exact _ _ ⟨rfl, filled, rfl⟩
    exact ⟨filled, by rw [String.ofList_toList], rfl⟩
  apply (reflects_rule .barePseudo (by decide) (by decide) body).mono
  rintro _ used _ ⟨_, ⟨filled, rfl, rfl⟩, rfl⟩
  refine ⟨filled, _, rfl, fun _ => ?_, ?_⟩
  · rw [treeCondition?, conditionPath?]
  · rw [miscounted_bare (not_miscounted_leaf (by decide) (by decide) _), conditionPath?]

section
variable {condition : Reader Condition}
variable (sub : Reflects grammar whole bound .spaced (.rule .negationArg) condition
  (RendersInside .negationArg))
include sub

/-- The colon is taken before a condition inside is. -/
theorem reflects_pseudoCondition :
    Reflects grammar whole (bound + 1) .spaced (.rule .pseudo) (pseudoCondition condition) Renders := by
  have body : Reflects grammar whole (bound + 1) .spaced Rule.pseudo.body (pseudoCondition condition)
      (fun result used parts => used ≠ [] ∧ ∃ inner, parts = [inner] ∧
        (∀ text, treeCondition? (.node .pseudo text [inner]) = conditionPath? result) ∧
        (Miscounted inner ↔ conditionPath? result = none)) := by
    refine Reflects.tightAfter (tight _) (token_filled (by decide)) (reflects_token ":") ?_
    rintro _ _ _ ⟨rfl, rfl⟩
    apply ((reflects_negation sub).choice (reflects_functional.choice reflects_bare)).mono
    rintro result used parts ⟨_, inner, rfl, made, miscounted⟩
    exact ⟨by simp, inner, rfl, made, miscounted⟩
  apply (reflects_rule .pseudo (by decide) (by decide) body).mono
  rintro result used _ ⟨_, ⟨filled, inner, rfl, made, miscounted⟩, rfl⟩
  refine ⟨filled, _, rfl, made used, ?_⟩
  rw [miscounted_node (by decide) (by decide), ← miscounted]
  simp

theorem reflects_simpleUpTo :
    Reflects grammar whole (bound + 1) .spaced Rule.simple.body (simpleUpTo condition) Renders :=
  reflects_idCondition.choice (reflects_classCondition.choice (reflects_attributeCondition.choice
    (reflects_pseudoCondition sub)))

end

/-- A rule that shows the condition inside. -/
theorem reflects_showing (rule : Rule) (kind : rule.kind = .normal) {reader : Reader Condition}
    (inside : Reflects grammar whole bound .spaced rule.body reader Renders) :
    Reflects grammar whole bound .spaced (.rule rule) reader (RendersInside rule) := by
  have body : Reflects grammar whole bound (rule.kind.inside .spaced) rule.body reader Renders := by
    rwa [kind]
  apply (reflects_rule rule (by rw [kind]; nofun) (by decide) body).mono
  rintro result used _ ⟨parts, renders, rfl⟩
  exact ⟨parts, rfl, renders⟩

theorem reflects_negatedName :
    Reflects grammar whole bound .spaced (.rule .typeSel)
      (do let exact ← elementName; pure (.elementName exact)) Renders := by
  apply reflects_elementName.map
  rintro element used _ ⟨filled, same, parts, rfl, calm⟩
  refine ⟨filled, _, rfl, ?_, iff_of_false calm nofun⟩
  rw [treeCondition?, conditionPath?, same]

/-- A condition in a negation, on texts shorter than the limit of its negations. -/
theorem reflects_negatedUpTo (limit : Nat) :
    Reflects grammar whole limit .spaced (.rule .negationArg) (negatedUpTo limit)
      (RendersInside .negationArg) := by
  induction limit with
  | zero => exact ⟨fun _ short => absurd short (Nat.not_lt_zero _), fun _ _ _ short =>
      absurd short (Nat.not_lt_zero _)⟩
  | succ limit ih =>
      apply reflects_showing .negationArg rfl
      exact reflects_negatedName.choice (reflects_simpleUpTo ih)

/-- A condition in a compound. -/
theorem reflects_simple :
    Reflects grammar whole bound .spaced (.rule .simple) simple (RendersInside .simple) := by
  have at_ (text : List Char) : Reflects grammar whole (text.length + 1) .spaced (.rule .simple)
      (simpleUpTo (negatedUpTo text.length)) (RendersInside .simple) :=
    reflects_showing .simple rfl (reflects_simpleUpTo (reflects_negatedUpTo text.length))
  exact ⟨fun text _ => (at_ text).refuses text (Nat.lt_succ_self _),
    fun text value rest _ => (at_ text).takes text value rest (Nat.lt_succ_self _)⟩

end NodeQuery.Selector

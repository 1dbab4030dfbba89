import NodeQuery.Proofs.Expr.Stalling
import NodeQuery.Proofs.Selector.Path

/-!
# What the path of any selector is read as

The path written for a selector is not always one that the grammar of paths accepts: element and
attribute names may begin with a minus sign there, and a pseudo-class may be called like a test.  Such a
path is refused as a whole.  Any other is read as the selector is built, save that a pseudo-class whose
name begins with a minus sign is read as a call behind that sign.
-/

namespace NodeQuery

open NodeQuery.Expr (Jams Blocks Stalls Halts Begins Reads Takes goesOn isStuck exprUpTo dropBlanks
  EndsName EndsPath)
open Text.Reader

namespace Selector

/-- What the predicate for a condition is read as, if it is read at all. -/
def readExpr? : Condition → Option Expr
  | .negation inner => (readExpr? inner).map fun body => .call "not" [body]
  | .pseudoClass name arguments =>
    match name.toList with
    | '-' :: chars => some (.negate (callExpr (String.ofList chars) (arguments.getD [])))
    | _ => pseudoClassExpr? name arguments
  | condition => conditionExpr? condition

def IsRefused (condition : Condition) : Prop :=
  ∃ path, conditionPath? condition = some path ∧ Jams path.toList

/-- A condition whose predicate is read, if there is one, or refused. -/
def IsDecided (condition : Condition) : Prop :=
  Option.Rel Writes (conditionPath? condition) (readExpr? condition) ∨ IsRefused condition

theorem chars_of_signed {name : String} (signed : isUnsigned name = false) :
    ∃ chars, name.toList = '-' :: chars := by
  cases spelled : name.toList with
  | nil =>
      rw [isUnsigned, spelled] at signed
      cases signed
  | cons first others =>
      rw [isUnsigned, spelled, List.head?_cons, bne_eq_false_iff_eq] at signed
      cases signed
      exact ⟨others, rfl⟩

theorem decided_elementName {element : ElementName} (wellFormed : element.WellFormed) :
    IsDecided (.elementName element) := by
  cases plain : element.isPlain with
  | true => exact Or.inl (writes_condition (.elementName element) wellFormed plain)
  | false =>
      cases element with
      | any => cases plain
      | named name =>
          rcases chars_of_signed plain with ⟨chars, spelled⟩
          have jams := (Blocks.along .self chars).jams.1
          refine Or.inr ⟨"self::" ++ elementTest (.named name), rfl, ?_⟩
          rwa [elementTest, String.toList_append, spelled]

section
variable {target : String} {text : List Char} (signed : target.toList = '@' :: '-' :: text)
include signed

theorem jams_signed (more : List Char) : Jams (target.toList ++ more) := by
  rw [signed]
  exact (Blocks.attribute (text ++ more)).jams.1

theorem jams_call_signed (function : String) (isName : Expr.IsName function.toList)
    (more : List Char) : Jams (function.toList ++ '(' :: (target.toList ++ more)) :=
  ((jams_signed signed more).call isName).jams.1

theorem jams_wordCondition (word : String) : Jams (wordCondition target word).toList := by
  have blank : Expr.Body 1 ['\'', ' ', '\''] (.string " ") := by
    have lacks : '\'' ∉ " ".toList := by decide
    have literal := (Expr.Operand.string (Or.inr rfl) lacks).body
    simpa using literal
  have open_ : ∀ c ∈ ['\'', ' ', '\''].head?, c ≠ ')' := by
    intro c head
    cases head
    decide
  have concat : Expr.IsName "concat".toList := by decide
  have contains : Expr.IsName "contains".toList := by decide
  have normal := jams_call_signed signed "normalize-space" (by decide)
    ("), ' '), " ++ quoteLiteral (" " ++ word ++ " ") ++ ")").toList
  have padded := (normal.call_second concat blank open_).jams.1
  have whole := (padded.call contains).jams.1
  delta wordCondition
  simpa using whole

/-- Every way of comparing an attribute begins with the attribute, alone or as an argument. -/
theorem jams_attributePath (relation : AttributeMatch) (value : String) :
    Jams (attributePath target relation value).toList := by
  cases relation with
  | exact =>
      delta attributePath
      dsimp only
      rw [String.toList_append, String.toList_append, List.append_assoc]
      exact jams_signed signed _
  | word => exact jams_wordCondition signed value
  | start =>
      have jams := jams_call_signed signed "starts-with" (by decide)
        (", " ++ quoteLiteral value ++ ")").toList
      delta attributePath
      simpa using jams
  | ending =>
      have jams := jams_call_signed signed "substring" (by decide)
        (", string-length(" ++ target ++ ") - string-length(" ++ quoteLiteral value ++ ") + 1) = " ++
          quoteLiteral value).toList
      delta attributePath
      simpa using jams
  | inside =>
      have jams := jams_call_signed signed "contains" (by decide)
        (", " ++ quoteLiteral value ++ ")").toList
      delta attributePath
      simpa using jams
  | dashed =>
      have jams := jams_signed signed (" = " ++ quoteLiteral value ++ " or starts-with(" ++ target ++
        ", " ++ quoteLiteral (value ++ "-") ++ ")").toList
      delta attributePath
      simpa using jams

end

/-- No attribute has a name with a minus sign. -/
theorem refused_attribute {name : String} (signed : isUnsigned name = false)
    (test : Option (AttributeMatch × String)) : IsRefused (.attribute name test) := by
  rcases chars_of_signed signed with ⟨chars, spelled⟩
  have target : ("@" ++ name).toList = '@' :: '-' :: chars := by
    rw [String.toList_append, spelled]
    rfl
  cases test with
  | none =>
      refine ⟨"@" ++ name, rfl, ?_⟩
      rw [target]
      exact (Blocks.attribute chars).jams.1
  | some comparison =>
      exact ⟨attributePath ("@" ++ name) comparison.1 comparison.2, rfl,
        jams_attributePath target comparison.1 comparison.2⟩

theorem decided_attribute {name : String} {test : Option (AttributeMatch × String)}
    (wellFormed : (Condition.attribute name test).WellFormed) : IsDecided (.attribute name test) := by
  cases plain : isUnsigned name with
  | true => exact Or.inl (writes_condition (.attribute name test) wellFormed plain)
  | false => exact Or.inr (refused_attribute plain test)

theorem decided_negation {inner : Condition} (decided : IsDecided inner) :
    IsDecided (.negation inner) := by
  rcases decided with reads | ⟨path, written, jams⟩
  · apply Or.inl
    rw [conditionPath?, readExpr?]
    refine rel_map reads fun path value writes => ?_
    have call := operand_call1 "not" (by decide) (by decide) writes
    apply writes_of_body call.body
    · simp [Expr.callChars]
    · simp [Expr.callChars]
  · refine Or.inr ⟨"not(" ++ path ++ ")", by rw [conditionPath?, written, Option.map_some], ?_⟩
    have isName : Expr.IsName "not".toList := by decide
    have called := ((jams.append [')']).call isName).jams.1
    simpa using called

/-- The names that a fixed meaning can have. -/
def fixedNames : List String :=
  ["nth-child", "nth-last-child", "first-child", "last-child", "only-child", "empty", "root"]

/-- Other pseudo-classes are calls. -/
theorem pseudoClassPath?_of_other {name : String} (other : name ∉ fixedNames)
    (arguments : Option (List PseudoArgument)) :
    pseudoClassPath? name arguments = some (callPath name (arguments.getD [])) := by
  simp only [fixedNames, List.mem_cons, List.not_mem_nil, or_false, not_or] at other
  cases arguments <;> simp [pseudoClassPath?, other]

theorem jams_testCall {chars : List Char} (isName : Expr.IsName chars)
    (listed : String.ofList chars ∈ Expr.testWords) (more : List Char) :
    Jams (chars ++ '(' :: '.' :: more) ∧ Jams ('-' :: chars ++ '(' :: '.' :: more) := by
  have jams := ((Blocks.of_testWord isName listed (c := '.') rfl (by decide)).append more).jams
  simpa using jams

theorem toList_callPath (name : String) (arguments : List PseudoArgument) :
    ∃ more, (callPath name arguments).toList = name.toList ++ '(' :: '.' :: more :=
  ⟨_, by rw [callPath, String.toList_append, String.toList_append, String.toList_append,
    List.append_assoc, List.append_assoc]; rfl⟩

theorem decided_pseudoClass {name : String} {arguments : Option (List PseudoArgument)}
    (wellFormed : (Condition.pseudoClass name arguments).WellFormed) :
    IsDecided (.pseudoClass name arguments) := by
  have allGiven := wellFormed.arguments
  rcases wellFormed with ⟨⟨isName, signs⟩, all⟩
  cases plain : isUnsigned name with
  | true =>
      have unsigned := isName.chars plain
      by_cases listed : name ∈ Expr.testWords
      · have other : name ∉ fixedNames := by
          have apart : ∀ word ∈ Expr.testWords, word ∉ fixedNames := by decide
          exact apart name listed
        rcases toList_callPath name (arguments.getD []) with ⟨more, spelled⟩
        refine Or.inr ⟨_, pseudoClassPath?_of_other other arguments, ?_⟩
        rw [spelled]
        exact (jams_testCall unsigned (by rwa [String.ofList_toList]) more).1
      · have same : readExpr? (.pseudoClass name arguments) = pseudoClassExpr? name arguments := by
          rw [readExpr?]
          split
          · rename_i chars spelled
            rw [isUnsigned, spelled] at plain
            cases plain
          · rfl
        rw [IsDecided, same]
        exact Or.inl (writes_pseudoClass unsigned listed all)
  | false =>
      rcases chars_of_signed plain with ⟨chars, spelled⟩
      have unsigned := signs chars spelled
      have other : name ∉ fixedNames := by
        have apart : ∀ word ∈ fixedNames, word.toList.head? ≠ some '-' := by decide
        intro listed
        exact apart name listed (by rw [spelled]; rfl)
      have written := pseudoClassPath?_of_other other arguments
      by_cases listed : String.ofList chars ∈ Expr.testWords
      · rcases toList_callPath name (arguments.getD []) with ⟨more, same⟩
        refine Or.inr ⟨_, written, ?_⟩
        rw [same, spelled]
        exact (jams_testCall unsigned listed more).2
      · have behind : (callPath name (arguments.getD [])).toList =
            '-' :: (callPath (String.ofList chars) (arguments.getD [])).toList := by
          rw [callPath, callPath]
          simp [spelled]
        have body := Expr.Body.minus
          (operand_callPath (by rwa [String.toList_ofList]) listed allGiven)
        apply Or.inl
        rw [conditionPath?, written, readExpr?, spelled]
        apply Option.Rel.some
        apply writes_of_body body behind
        have long := length_callPath (String.ofList chars) (arguments.getD [])
        rw [List.length_cons]
        omega

/-- The predicate for any condition is read as the condition is built, or refused. -/
theorem decided_condition {condition : Condition} (wellFormed : condition.WellFormed) :
    IsDecided condition := by
  induction condition with
  | elementName element => exact decided_elementName wellFormed
  | id name => exact Or.inl (writes_condition (.id name) wellFormed rfl)
  | class_ name => exact Or.inl (writes_condition (.class_ name) wellFormed rfl)
  | «attribute» name test => exact decided_attribute wellFormed
  | negation inner ih => exact decided_negation (ih wellFormed)
  | pseudoClass name arguments => exact decided_pseudoClass wellFormed

/-- What a translation gives is related to what the other one gives. -/
theorem exists_of_rel {α β : Type} {related : α → β → Prop} {first : Option α} {second : Option β}
    (rel : Option.Rel related first second) {value : α} (given : first = some value) :
    ∃ other, second = some other ∧ related value other := by
  cases rel with
  | none => cases given
  | some holds =>
      cases given
      exact ⟨_, rfl, holds⟩

/-- What is refused is not read. -/
theorem IsRefused.not_writes {condition : Condition} (refused : IsRefused condition) :
    ¬ Option.Rel Writes (conditionPath? condition) (readExpr? condition) := by
  rcases refused with ⟨path, written, jams⟩
  intro related
  rcases exists_of_rel related written with ⟨value, _, writes⟩
  -- In front of a closing bracket, where nothing is stuck, the same text would be read to its end.
  rcases writes.reads path.toList.length (Nat.le_refl _) _ (.bracket []) with ⟨left, given, behind⟩
  rcases jams.stalls _ _ value left given with ⟨c, others, spelled, stuck⟩
  rw [behind.dropBlanks_eq] at spelled
  cases spelled
  cases stuck

/-!
## Predicates

Either all parts of a text are read, or reading halts at one of them, and then it halts in whatever that
part stands in.
-/

/-- The text of predicates at one of which reading halts. -/
structure HaltsPredicates (text : List Char) : Prop where
  opened : ∃ others, text = '[' :: others
  halts : ∀ limit, text.length ≤ limit → ∀ rest,
    Halts (· == '[') (Expr.predicate (exprUpTo limit)) (text ++ rest)

/-- A predicate that is refused. -/
theorem haltsPredicates_of_jams {body : List Char} (jams : Jams body) (more : List Char) :
    HaltsPredicates ('[' :: (body ++ more)) where
  opened := ⟨_, rfl⟩
  halts limit _ rest := by
    have opened : token "[" ('[' :: (body ++ more) ++ rest) = some ((), body ++ (more ++ rest)) :=
      congrArg (fun behind => some ((), behind)) (List.append_assoc body more rest)
    have solid := Expr.dropBlanks_of_begins jams.begins (more ++ rest)
    apply Halts.of_none (.cons rfl rfl)
    change Expr.predicate _ ('[' :: (body ++ more) ++ rest) = none
    rw [Expr.predicate, bind_of_some opened, bind_of_some (Expr.blanks_apply _), solid, bind_apply]
    rcases found : exprUpTo limit (body ++ (more ++ rest)) with _ | ⟨value, left⟩
    · rfl
    · have stuck := jams.stalls limit (more ++ rest) value left found
      rw [Option.bind_some, bind_of_some (Expr.blanks_apply _), bind_of_none (stuck.token_none rfl rfl)]

/-- A predicate that is read, in front of others at one of which reading halts. -/
theorem haltsPredicates_of_writes {body others : List Char} {value : Expr}
    (writes : Expr.Body body.length body value) (later : HaltsPredicates others) :
    HaltsPredicates ('[' :: (body ++ ']' :: others)) where
  opened := ⟨_, rfl⟩
  halts limit enough rest := by
    rw [List.length_cons, List.length_append, List.length_cons] at enough
    have reads := writes.reads limit (by omega) _ (.bracket (others ++ rest))
    have predicate := Expr.predicate_of_body (writes.solid _) reads
    rw [List.cons_append, List.append_assoc, List.cons_append]
    exact .more (.cons rfl rfl) (Reads.of_eq predicate) (later.halts limit (by omega) rest)

/-- All predicates are read, or reading halts at one. -/
theorem predicates_read_or_halt {conditions : List Condition}
    (wellFormed : ∀ condition ∈ conditions, condition.WellFormed) {path : String}
    (written : predicatesPath? conditions = some path) :
    (∀ condition ∈ conditions, Option.Rel Writes (conditionPath? condition) (readExpr? condition)) ∨
      HaltsPredicates path.toList := by
  induction conditions generalizing path with
  | nil => exact Or.inl (List.forall_mem_nil _)
  | cons condition conditions ih =>
      rcases List.forall_mem_cons.mp wellFormed with ⟨first, wellFormed⟩
      simp only [predicatesPath?, Option.bind_eq_bind, Option.bind_eq_some_iff] at written
      rcases written with ⟨body, bodyWritten, others, othersWritten, same⟩
      cases same
      have spelled : ("[" ++ body ++ "]" ++ others).toList =
          '[' :: (body.toList ++ ']' :: others.toList) := by simp
      rw [spelled]
      rcases decided_condition first with reads | ⟨other, otherWritten, jams⟩
      · refine (ih wellFormed othersWritten).imp (fun all => List.forall_mem_cons.mpr ⟨reads, all⟩)
          fun later => ?_
        rcases exists_of_rel reads bodyWritten with ⟨value, _, writes⟩
        exact haltsPredicates_of_writes writes later
      · rw [bodyWritten] at otherWritten
        cases otherWritten
        exact Or.inr (haltsPredicates_of_jams jams _)

/-- The text of a step at which reading stalls. -/
structure StallsStep (text : List Char) : Prop where
  begins : ∀ rest, BeginsStep (text ++ rest)
  stalls : ∀ limit, text.length ≤ limit → ∀ rest,
    Stalls Expr.isOpen (Expr.step (exprUpTo limit)) (text ++ rest)

/-- No step has an element name with a minus sign. -/
theorem stallsStep_of_signed {lead : List Char} {axis : Axis} (leads : Leads lead axis)
    (text : List Char) : StallsStep (lead ++ '-' :: text) := by
  cases leads with
  | child =>
      exact ⟨fun _ => ⟨leaves_cons rfl, leaves_cons rfl, leaves_cons rfl⟩,
        fun _ _ _ => .of_none (Expr.step_minus _)⟩
  | named axis =>
      have spelled (rest : List Char) : (axis.name.toList ++ [':', ':']) ++ '-' :: text ++ rest =
          axis.name.toList ++ ':' :: ':' :: '-' :: (text ++ rest) := by simp
      constructor
      · intro rest
        have begins : Expr.BeginsAxis (axis.name.toList ++ ':' :: ':' :: '-' :: (text ++ rest)) :=
          ⟨axis, _, rfl⟩
        rw [spelled]
        exact ⟨begins.solid, begins.leaves rfl, begins.leaves rfl⟩
      · intro limit _ rest only left given
        rw [spelled, Expr.step_unreadable] at given
        cases given
        exact .cons rfl rfl

/-- The step for a compound is read, or reading stalls at it. -/
theorem compound_read_or_stall {compound : Compound} (wellFormed : compound.WellFormed)
    {lead : List Char} {axis : Axis} (leads : Leads lead axis) {path : String}
    (written : compoundPath? compound = some path) :
    compound.Legible readExpr? ∨ StallsStep (lead ++ path.toList) := by
  simp only [compoundPath?, Option.bind_eq_bind, Option.bind_eq_some_iff] at written
  rcases written with ⟨predicates, predicatesWritten, same⟩
  cases same
  have named := wellFormed.element_getD
  rw [String.toList_append]
  cases plain : (compound.element.getD .any).isPlain with
  | false =>
      rcases element : compound.element.getD .any with _ | name
      · rw [element] at plain
        cases plain
      · rw [element] at plain
        rcases chars_of_signed plain with ⟨chars, spelled⟩
        rw [elementTest, spelled]
        exact Or.inr (stallsStep_of_signed leads _)
  | true =>
      refine (predicates_read_or_halt wellFormed.conditions predicatesWritten).imp
        (fun all => ⟨named, plain, all⟩) fun halting => ?_
      have begins (rest : List Char) := beginsStep leads named plain (predicates.toList ++ rest)
      have spelled (rest : List Char) :
          lead ++ ((elementTest (compound.element.getD .any)).toList ++ predicates.toList) ++ rest =
            lead ++ ((elementTest (compound.element.getD .any)).toList ++ (predicates.toList ++ rest)) := by
        simp
      constructor
      · intro rest
        rw [spelled]
        exact begins rest
      · intro limit enough rest
        simp only [List.length_append] at enough
        have ends : EndsName (predicates.toList ++ rest) := by
          rcases halting.opened with ⟨others, opened⟩
          rw [opened]
          exact EndsName.of_head rfl rfl rfl
        rw [spelled]
        have stalls := Halts.step (begins rest).undotted (axisAndTest_lead leads named plain ends)
          (halting.halts limit (by omega) rest)
        exact stalls.mono fun c opened => by rw [Expr.isOpen, opened, Bool.true_or]

/-- The text of steps and of the slashes before them, at one of which reading halts. -/
structure HaltsLinks (text : List Char) : Prop where
  ends : ∀ rest, EndsStep (text ++ rest)
  halts : ∀ limit, text.length ≤ limit → ∀ rest,
    Halts goesOn (Expr.nextStep (exprUpTo limit)) (text ++ rest)

/-- A step behind slashes at which reading stalls. -/
theorem StallsStep.link {slashes text : List Char} {between : List Step} (stalls : StallsStep text)
    (separates : Separates slashes between) (more : List Char) :
    HaltsLinks (slashes ++ text ++ more) where
  ends rest := by
    rw [List.append_assoc, List.append_assoc]
    exact separates.endsStep _
  halts limit enough rest := by
    simp only [List.length_append] at enough
    have begins := stalls.begins (more ++ rest)
    have stuck := (stalls.stalls limit (by omega) (more ++ rest)).nextStep
      (separates.separator begins.unslashed) begins.solid
    have solid : dropBlanks (slashes ++ (text ++ (more ++ rest))) =
        slashes ++ (text ++ (more ++ rest)) := by
      cases separates <;> rfl
    rw [List.append_assoc, List.append_assoc]
    rw [← solid] at stuck
    refine .last ?_ stuck (fun left => Begins.no_nextStep) Expr.goesOn_of_isOpen
    cases separates <;> exact .cons rfl rfl

/-- Steps that are read, in front of others at one of which reading halts. -/
theorem WritesLinks.halts {first second : List Char} {taken : List Step}
    (writes : WritesLinks first taken) (later : HaltsLinks second) : HaltsLinks (first ++ second) where
  ends rest := by
    rw [List.append_assoc]
    exact (writes first.length (Nat.le_refl _) _ (later.ends rest)).1
  halts limit enough rest := by
    rw [List.length_append] at enough
    rcases writes limit (by omega) _ (later.ends rest) with ⟨_, all, _, takes⟩
    rw [List.append_assoc]
    exact takes.halts (later.halts limit (by omega) rest) fun _ _ _ => Expr.begins_of_nextStep

/-- The steps from one compound to the next are read, or reading halts at them. -/
theorem link_read_or_halt (combinator : Combinator) {compound : Compound}
    (wellFormed : compound.WellFormed) {path : String} (written : compoundPath? compound = some path)
    (more : List Char) :
    compound.Legible readExpr? ∨
      HaltsLinks ((combinatorPath combinator).toList ++ path.toList ++ more) := by
  cases combinator with
  | descendant =>
      exact (compound_read_or_stall wellFormed .child written).imp_right fun stalls =>
        stalls.link .slashes more
  | child =>
      exact (compound_read_or_stall wellFormed .child written).imp_right fun stalls =>
        stalls.link .slash more
  | nextSibling =>
      refine (compound_read_or_stall wellFormed (.named .self) written).imp_right fun stalls => ?_
      have spelled : (combinatorPath .nextSibling).toList ++ path.toList ++ more =
          ['/'] ++ "following-sibling::*[1]".toList ++
            (['/'] ++ (Axis.self.name.toList ++ [':', ':'] ++ path.toList) ++ more) := by
        simp [combinatorPath, Axis.name]
      rw [spelled]
      exact (writesStep_nextSibling.link .slash).halts (stalls.link .slash more)
  | laterSibling =>
      refine (compound_read_or_stall wellFormed (.named .followingSibling) written).imp_right
        fun stalls => ?_
      have spelled : (combinatorPath .laterSibling).toList ++ path.toList ++ more =
          ['/'] ++ (Axis.followingSibling.name.toList ++ [':', ':'] ++ path.toList) ++ more := by
        simp [combinatorPath, Axis.name]
      rw [spelled]
      exact stalls.link .slash more

/-- All steps behind the first are read, or reading halts at one. -/
theorem others_read_or_halt {others : List (Combinator × Compound)}
    (wellFormed : ∀ link ∈ others, link.2.WellFormed) {path : String}
    (written : othersPath? others = some path) :
    (∀ link ∈ others, link.2.Legible readExpr?) ∨ HaltsLinks path.toList := by
  induction others generalizing path with
  | nil => exact Or.inl (List.forall_mem_nil _)
  | cons link others ih =>
      rcases link with ⟨combinator, compound⟩
      rcases List.forall_mem_cons.mp wellFormed with ⟨first, wellFormed⟩
      simp only [othersPath?, Option.bind_eq_bind, Option.bind_eq_some_iff] at written
      rcases written with ⟨step, stepWritten, rest, restWritten, same⟩
      cases same
      rw [String.toList_append, String.toList_append]
      rcases link_read_or_halt combinator first stepWritten rest.toList with legible | halts
      · refine (ih wellFormed restWritten).imp (fun all => List.forall_mem_cons.mpr ⟨legible, all⟩)
          fun later => ?_
        rcases exists_of_rel (writes_link combinator legible) stepWritten with ⟨taken, _, writes⟩
        exact writes.halts later
      · exact Or.inr halts

/-- The text of a path at which reading stalls. -/
structure StallsPath (text : List Char) : Prop where
  begins : ∃ c others, text = c :: others ∧ Expr.isBlank c = false ∧ c ≠ '-'
  stalls : ∀ limit, text.length ≤ limit → ∀ rest, Stalls goesOn (Expr.path (exprUpTo limit)) (text ++ rest)

/-- A start in front of steps that stall. -/
theorem stallsPath_of_steps {start : String} {from_ : List Step → Expr} (starts : Starts start from_)
    {text : List Char} (solid : ∀ rest, Leaves Expr.isBlank (text ++ rest))
    (stalls : ∀ limit, text.length ≤ limit → ∀ rest,
      Stalls goesOn (Expr.steps (exprUpTo limit)) (text ++ rest))
    (links : HaltsLinks ('/' :: '/' :: text)) : StallsPath (start.toList ++ text) where
  begins := by cases starts <;> exact ⟨_, _, rfl, rfl, by decide⟩
  stalls limit enough rest := by
    cases starts with
    | root =>
        rw [List.length_append] at enough
        rw [List.append_assoc]
        exact Stalls.path_of_slashes (solid rest) (stalls limit (by omega) rest)
    | focus =>
        -- The dot is a step of its own, so that the slashes belong to the step behind it.
        have fits : ('/' :: '/' :: text).length ≤ limit := by
          simp at enough ⊢
          omega
        have dot : Expr.step (exprUpTo limit) ('.' :: '/' :: '/' :: (text ++ rest)) =
            some (.mk .self .node [], '/' :: '/' :: (text ++ rest)) := rfl
        have spelled : ".//".toList ++ text ++ rest = '.' :: '/' :: '/' :: (text ++ rest) := by simp
        rw [spelled]
        exact Stalls.path (leaves_cons rfl) rfl (Halts.steps (Reads.of_eq dot) (links.halts limit fits rest))

/-- The path of one selector is read, or reading stalls at it. -/
theorem path_read_or_stall {start : String} {from_ : List Step → Expr} (starts : Starts start from_)
    {selector : Selector} (wellFormed : selector.WellFormed) {path : String}
    (written : path? start selector = some path) :
    selector.Legible readExpr? ∨ StallsPath path.toList := by
  simp only [path?, Option.bind_eq_bind, Option.bind_eq_some_iff] at written
  rcases written with ⟨first, firstWritten, others, othersWritten, same⟩
  cases same
  rw [String.toList_append, String.toList_append, List.append_assoc]
  rcases compound_read_or_stall wellFormed.first .child firstWritten with legible | stalls
  · refine (others_read_or_halt wellFormed.others othersWritten).imp (fun all => ⟨legible, all⟩)
      fun halting => ?_
    rcases exists_of_rel (writes_compound legible .child) firstWritten with ⟨step, _, writes⟩
    refine stallsPath_of_steps starts (fun rest => ?_) (fun limit enough rest => ?_)
      ((writes.link .slashes).halts halting)
    · rw [List.append_assoc]
      exact (writes.begins _).solid
    · rw [List.length_append] at enough
      have fits : ([] ++ first.toList).length ≤ limit := Nat.le_trans (Nat.le_add_right _ _) enough
      rw [List.append_assoc]
      exact Halts.steps (writes.reads limit fits _ (halting.ends rest))
        (halting.halts limit (by omega) rest)
  · refine Or.inr (stallsPath_of_steps starts (fun rest => ?_) (fun limit enough rest => ?_)
      (stalls.link .slashes others.toList))
    · rw [List.append_assoc]
      exact (stalls.begins _).solid
    · rw [List.length_append] at enough
      have fits : ([] ++ first.toList).length ≤ limit := Nat.le_trans (Nat.le_add_right _ _) enough
      rw [List.append_assoc]
      exact (stalls.stalls limit fits _).steps.mono Expr.goesOn_of_isOpen

/-- All alternatives behind the first are read, or reading halts at one. -/
theorem alternatives_read_or_halt {start : String} {from_ : List Step → Expr}
    (starts : Starts start from_) {group : SelectorGroup}
    (wellFormed : ∀ selector ∈ group, selector.WellFormed) {paths : List String}
    (written : group.mapM (path? start) = some paths) :
    (∀ selector ∈ group, selector.Legible readExpr?) ∨
      ∀ limit, (alternativeChars paths).length ≤ limit →
        Halts isStuck (Expr.operation (Expr.path (exprUpTo limit)) Expr.unionOperator)
          (alternativeChars paths) := by
  induction group generalizing paths with
  | nil => exact Or.inl (List.forall_mem_nil _)
  | cons selector group ih =>
      rcases List.forall_mem_cons.mp wellFormed with ⟨first, wellFormed⟩
      simp only [List.mapM_cons, Option.bind_eq_bind, Option.bind_eq_some_iff] at written
      rcases written with ⟨path, pathWritten, others, othersWritten, same⟩
      cases same
      have spelled : alternativeChars (path :: others) =
          ' ' :: '|' :: ' ' :: (path.toList ++ alternativeChars others) := rfl
      have bar : Expr.unionOperator ('|' :: ' ' :: (path.toList ++ alternativeChars others)) =
          some (.union, ' ' :: (path.toList ++ alternativeChars others)) := rfl
      have begins : Begins isStuck (' ' :: '|' :: ' ' :: (path.toList ++ alternativeChars others)) :=
        ⟨'|', _, rfl, rfl⟩
      have trimmed (solid : ∃ c letters, path.toList = c :: letters ∧ Expr.isBlank c = false ∧ c ≠ '-') :
          dropBlanks (' ' :: (path.toList ++ alternativeChars others)) =
            path.toList ++ alternativeChars others := Expr.dropBlanks_of_begins solid _
      rw [spelled]
      simp only [List.length_cons, List.length_append]
      rcases path_read_or_stall starts first pathWritten with legible | stalls
      · refine (ih wellFormed othersWritten).imp (fun all => List.forall_mem_cons.mpr ⟨legible, all⟩)
          fun later limit enough => ?_
        rcases exists_of_rel (writes_path starts legible) pathWritten with ⟨taken, _, writes⟩
        have reads := writes.reads limit (by omega) _ (endsAlternative_alternativeChars others)
        rw [← trimmed writes.begins] at reads
        exact .more begins (Expr.operation_reads bar reads) (later limit (by omega))
      · refine Or.inr fun limit enough => ?_
        have stuck := stalls.stalls limit (by omega) (alternativeChars others)
        refine .last begins ?_ (fun left halting => Expr.operation_stops (halting.no_operator_of_goesOn 0))
          Expr.isStuck_of_goesOn
        intro taken left given
        change Expr.operation _ _ ('|' :: ' ' :: (path.toList ++ alternativeChars others)) = _ at given
        rw [Expr.operation, bind_of_some bar, bind_of_some (Expr.blanks_apply _),
          trimmed stalls.begins] at given
        exact stuck.map _ taken left given

/-- A path for a group of selectors is refused unless every part of the group is read. -/
theorem legible_or_refused {start : String} {from_ : List Step → Expr} (starts : Starts start from_)
    {group : SelectorGroup} (filled : group ≠ [])
    (wellFormed : ∀ selector ∈ group, selector.WellFormed) {path : String}
    (written : groupPath? start group = some path) :
    (∀ selector ∈ group, selector.Legible readExpr?) ∨ Expr.parse? path = none := by
  rcases group with _ | ⟨selector, group⟩
  · exact absurd rfl filled
  rcases List.forall_mem_cons.mp wellFormed with ⟨first, wellFormed⟩
  simp only [groupPath?, List.mapM_cons, Option.bind_eq_bind, Option.map_eq_some_iff,
    Option.bind_eq_some_iff] at written
  rcases written with ⟨_, ⟨one, oneWritten, others, othersWritten, same⟩, joined⟩
  cases same
  cases joined
  have spelled := toList_intercalate_bar one others
  have refused (begins : ∃ c letters, one.toList = c :: letters ∧ Expr.isBlank c = false ∧ c ≠ '-')
      (stalls : Stalls isStuck (Expr.unionLevel (exprUpTo (one.toList ++ alternativeChars others).length))
        (one.toList ++ alternativeChars others)) :
      Expr.parse? (" | ".intercalate (one :: others)) = none := by
    apply Expr.parse?_of_stalls <;> rw [spelled]
    · exact Expr.unsigned_of_begins begins _
    · exact stalls
  rcases path_read_or_stall starts first oneWritten with legible | stuck
  · refine (alternatives_read_or_halt starts wellFormed othersWritten).imp
      (fun all => List.forall_mem_cons.mpr ⟨legible, all⟩) fun halts => ?_
    rcases exists_of_rel (writes_path starts legible) oneWritten with ⟨taken, _, writes⟩
    apply refused writes.begins
    rw [List.length_append]
    let limit := one.toList.length + (alternativeChars others).length
    have reads := writes.reads limit (Nat.le_add_right _ _) _ (endsAlternative_alternativeChars others)
    exact (halts limit (Nat.le_add_left _ _)).behind reads _
  · apply Or.inr
    apply refused stuck.begins
    rw [List.length_append]
    exact ((stuck.stalls _ (Nat.le_add_right _ _) _).grouped fun rest begins =>
      begins.no_operator_of_goesOn 0).mono Expr.isStuck_of_goesOn

/-- Whatever the path for a group of selectors is read as is the expression built from the group. -/
theorem groupExpr_of_parse {start : String} {from_ : List Step → Expr} (starts : Starts start from_)
    {group : SelectorGroup} (filled : group ≠ [])
    (wellFormed : ∀ selector ∈ group, selector.WellFormed) {path : String} {expr : Expr}
    (written : groupPath? start group = some path) (read : Expr.parse? path = some expr) :
    groupExprBy? readExpr? from_ group = some expr := by
  rcases legible_or_refused starts filled wellFormed written with legible | refused
  · rcases exists_of_rel (parse?_of_legible starts filled legible) written with ⟨other, structured, same⟩
    rw [read] at same
    rw [structured, same]
  · rw [refused] at read
    cases read

end Selector

end NodeQuery

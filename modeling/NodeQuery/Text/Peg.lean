/-!
# Grammars of ordered choices

A grammar gives a body to each of its rules.  A body is matched from a place in a text on: the second
alternative of a choice counts only where the first does not match, and a repetition goes on for as
long as its item matches, with nothing given back.  What does not match takes nothing.

In most rules blanks may stand between the parts of a sequence and between the items of a repetition.
Inside an atomic rule they may not, and neither in the rules it is made of.

A match is a list of trees.  Rules show as nodes, which hold the text they took; rules inside an atomic
one do not show, and silent ones show only what is inside them.
-/

namespace NodeQuery.Text

/-- Whether blanks may stand between parts and whether rules show, at a place in a body. -/
inductive Atomicity where
  | spaced
  | compound
  | atomic
deriving DecidableEq

/-- How a rule treats its body. -/
inductive RuleKind where
  | normal
  | silent
  | compound
  | atomic
deriving DecidableEq

/-- The atomicity of a body, from that of the place the rule stands at. -/
def RuleKind.inside : RuleKind → Atomicity → Atomicity
  | .normal, outside => outside
  | .silent, outside => outside
  | .compound, _ => .compound
  | .atomic, _ => .atomic

/-- A body of a rule, over the names of the rules.  `more` is what follows the first item of a
repetition; no rule is written with it. -/
inductive Peg (ρ : Type) where
  | start
  | finish
  | text (expected : String)
  | character (holds : Char → Bool)
  | rule (name : ρ)
  | seq (first second : Peg ρ)
  | choice (first second : Peg ρ)
  | optional (item : Peg ρ)
  | many (item : Peg ρ)
  | more (item : Peg ρ)
  | absent (item : Peg ρ)

def Peg.words {ρ : Type} (first : String) : List String → Peg ρ
  | [] => .text first
  | second :: others => .choice (.text first) (words second others)

/-- The rules of a grammar, and the blanks that may stand between parts. -/
structure Grammar (ρ : Type) where
  body : ρ → Peg ρ
  kind : ρ → RuleKind
  isBlank : Char → Bool

/-- A rule with the text it took and what shows inside. -/
inductive ParseTree (ρ : Type) where
  | node (rule : ρ) (text : List Char) (children : List (ParseTree ρ))

def ParseTree.text {ρ : Type} : ParseTree ρ → List Char
  | .node _ text _ => text

/-- A tree that is another one or stands somewhere inside it. -/
inductive ParseTree.Within {ρ : Type} (part : ParseTree ρ) : ParseTree ρ → Prop
  | whole : Within part part
  | inside {rule : ρ} {text : List Char} {children : List (ParseTree ρ)} {child : ParseTree ρ}
      (listed : child ∈ children) (within : Within part child) : Within part (.node rule text children)

/-- What a body makes of a text: `none` where it does not match, and otherwise the trees it shows with
what is left of the text. -/
abbrev Outcome (ρ : Type) := Option (List (ParseTree ρ) × List Char)

namespace Grammar

variable {ρ : Type} (grammar : Grammar ρ)

/-- What is left of a text once the blanks before a part are skipped. -/
def skip : Atomicity → List Char → List Char
  | .spaced, text => text.dropWhile grammar.isBlank
  | _, text => text

/-- What shows of a rule at a place. -/
def shown (atomicity : Atomicity) (rule : ρ) (text : List Char) (inside : List (ParseTree ρ)) :
    List (ParseTree ρ) :=
  if grammar.kind rule = .silent ∨ atomicity = .atomic then inside else [.node rule text inside]

/-- What a body makes of a text within the whole. -/
inductive Derives (whole : List Char) : Atomicity → Peg ρ → List Char → Outcome ρ → Prop
  | start {atomicity : Atomicity} : Derives whole atomicity .start whole (some ([], whole))
  | startNot {atomicity : Atomicity} {text : List Char} (later : text ≠ whole) :
      Derives whole atomicity .start text none
  | finish {atomicity : Atomicity} : Derives whole atomicity .finish [] (some ([], []))
  | finishNot {atomicity : Atomicity} {text : List Char} (left : text ≠ []) :
      Derives whole atomicity .finish text none
  | text {atomicity : Atomicity} {expected : String} {text rest : List Char}
      (begins : text = expected.toList ++ rest) :
      Derives whole atomicity (.text expected) text (some ([], rest))
  | textNot {atomicity : Atomicity} {expected : String} {text : List Char}
      (differs : ∀ rest, text ≠ expected.toList ++ rest) :
      Derives whole atomicity (.text expected) text none
  | character {atomicity : Atomicity} {holds : Char → Bool} {c : Char} {rest : List Char}
      (inside : holds c = true) :
      Derives whole atomicity (.character holds) (c :: rest) (some ([], rest))
  | characterNot {atomicity : Atomicity} {holds : Char → Bool} {text : List Char}
      (outside : ∀ c ∈ text.head?, holds c = false) :
      Derives whole atomicity (.character holds) text none
  | rule {atomicity : Atomicity} {rule : ρ} {text used rest : List Char} {trees : List (ParseTree ρ)}
      (taken : text = used ++ rest)
      (inside : Derives whole ((grammar.kind rule).inside atomicity) (grammar.body rule) text
        (some (trees, rest))) :
      Derives whole atomicity (.rule rule) text (some (grammar.shown atomicity rule used trees, rest))
  | ruleNot {atomicity : Atomicity} {rule : ρ} {text : List Char}
      (inside : Derives whole ((grammar.kind rule).inside atomicity) (grammar.body rule) text none) :
      Derives whole atomicity (.rule rule) text none
  | seq {atomicity : Atomicity} {first second : Peg ρ} {text middle rest : List Char}
      {trees others : List (ParseTree ρ)}
      (front : Derives whole atomicity first text (some (trees, middle)))
      (back : Derives whole atomicity second (grammar.skip atomicity middle) (some (others, rest))) :
      Derives whole atomicity (.seq first second) text (some (trees ++ others, rest))
  | seqNotFirst {atomicity : Atomicity} {first second : Peg ρ} {text : List Char}
      (front : Derives whole atomicity first text none) :
      Derives whole atomicity (.seq first second) text none
  | seqNotSecond {atomicity : Atomicity} {first second : Peg ρ} {text middle : List Char}
      {trees : List (ParseTree ρ)} (front : Derives whole atomicity first text (some (trees, middle)))
      (back : Derives whole atomicity second (grammar.skip atomicity middle) none) :
      Derives whole atomicity (.seq first second) text none
  | choiceFirst {atomicity : Atomicity} {first second : Peg ρ} {text : List Char}
      {taken : List (ParseTree ρ) × List Char} (matched : Derives whole atomicity first text (some taken)) :
      Derives whole atomicity (.choice first second) text (some taken)
  | choiceSecond {atomicity : Atomicity} {first second : Peg ρ} {text : List Char}
      {result : Outcome ρ}
      (refused : Derives whole atomicity first text none)
      (other : Derives whole atomicity second text result) :
      Derives whole atomicity (.choice first second) text result
  | optional {atomicity : Atomicity} {item : Peg ρ} {text : List Char}
      {taken : List (ParseTree ρ) × List Char} (matched : Derives whole atomicity item text (some taken)) :
      Derives whole atomicity (.optional item) text (some taken)
  | optionalNone {atomicity : Atomicity} {item : Peg ρ} {text : List Char}
      (refused : Derives whole atomicity item text none) :
      Derives whole atomicity (.optional item) text (some ([], text))
  | many {atomicity : Atomicity} {item : Peg ρ} {text middle rest : List Char}
      {trees others : List (ParseTree ρ)}
      (first : Derives whole atomicity item text (some (trees, middle)))
      (later : Derives whole atomicity (.more item) middle (some (others, rest))) :
      Derives whole atomicity (.many item) text (some (trees ++ others, rest))
  | manyNone {atomicity : Atomicity} {item : Peg ρ} {text : List Char}
      (refused : Derives whole atomicity item text none) :
      Derives whole atomicity (.many item) text (some ([], text))
  | more {atomicity : Atomicity} {item : Peg ρ} {text middle rest : List Char}
      {trees others : List (ParseTree ρ)}
      (next : Derives whole atomicity item (grammar.skip atomicity text) (some (trees, middle)))
      (later : Derives whole atomicity (.more item) middle (some (others, rest))) :
      Derives whole atomicity (.more item) text (some (trees ++ others, rest))
  | moreNone {atomicity : Atomicity} {item : Peg ρ} {text : List Char}
      (refused : Derives whole atomicity item (grammar.skip atomicity text) none) :
      Derives whole atomicity (.more item) text (some ([], text))
  | absent {atomicity : Atomicity} {item : Peg ρ} {text : List Char}
      (refused : Derives whole atomicity item text none) :
      Derives whole atomicity (.absent item) text (some ([], text))
  | absentNot {atomicity : Atomicity} {item : Peg ρ} {text : List Char}
      {taken : List (ParseTree ρ) × List Char} (matched : Derives whole atomicity item text (some taken)) :
      Derives whole atomicity (.absent item) text none

/-- A rule matches a whole text and gives a tree for it. -/
def Matches (rule : ρ) (text : List Char) (tree : ParseTree ρ) : Prop :=
  grammar.Derives text .spaced (.rule rule) text (some ([tree], []))

end Grammar

end NodeQuery.Text

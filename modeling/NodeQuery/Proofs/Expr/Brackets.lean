import NodeQuery.Proofs.Expr.Acceptance

/-!
# Up to a closing bracket

What the grammar makes of a text that ends where its brackets and quotes are closed does not depend on
what is behind.  No rule looks past the bracket that closes what it stands in, because none takes more
closing brackets than opening ones.
-/

namespace NodeQuery.Expr

open Text (Atomicity Peg ParseTree Outcome Reader)
open Text.Grammar
open Text.Reader (leaves_nil leaves_cons)

def opens (c : Char) : Bool := c == '(' || c == '['

def isQuote (c : Char) : Bool := c == '"' || c == '\''

/-- The characters that are neither brackets nor quotes. -/
def isPlain (c : Char) : Bool := !(opens c || isQuote c || (c == ')' || c == ']'))

/-- A place in a text: in front of the first bracket or quote, inside a number of brackets, or between
quotes there. -/
inductive Place where
  | front
  | inside (depth : Nat)
  | quoted (quote : Char) (depth : Nat)

namespace Place

/-- The place behind a character. -/
def step (place : Place) (c : Char) : Place :=
  if isPlain c then place
  else match place with
    | .front => if isQuote c then .quoted c 0 else .inside 1
    | .inside depth =>
      if opens c then .inside (depth + 1)
      else if isQuote c then .quoted c depth
      else .inside (depth - 1)
    | .quoted quote depth => if c == quote then .inside depth else .quoted quote depth

/-- All brackets and quotes that are open at a place are closed at the end of a text and not before. -/
def Ends : Place → List Char → Prop
  | place, [] => place = .inside 0
  | place, c :: text => place ≠ .inside 0 ∧ (place.step c).Ends text

variable {place : Place} {text : List Char}

theorem step_plain {c : Char} (plain : isPlain c = true) : place.step c = place := if_pos plain

theorem ends_append_plain {chars : List Char} (open_ : place ≠ .inside 0)
    (plain : ∀ c ∈ chars, isPlain c = true) : place.Ends (chars ++ text) ↔ place.Ends text := by
  induction chars with
  | nil => rfl
  | cons c chars ih =>
      rw [List.cons_append, Ends, step_plain (plain c List.mem_cons_self),
        ih fun other member => plain other (List.mem_cons_of_mem c member)]
      exact and_iff_right open_

theorem not_ends_nil (open_ : place ≠ .inside 0) : ¬ place.Ends [] := open_

end Place

/-!
## Bodies between places

Which place a body leads to is told by its shape alone, not by the text that it matches: both parts of a
choice lead to the same place, and a repetition stays where it is.
-/

/-- The rules of names, variables and numbers, which have neither brackets nor quotes in them. -/
def Rule.isWord : Rule → Bool
  | .qname | .ncname | .nameStart | .nameChar | .kindName | .varRef | .number => true
  | _ => false

/-- The rules that stand inside brackets, where all of their words are free of brackets. -/
def Rule.isInner : Rule → Bool
  | .xpath | .endOfInput | .quotedInner _ => false
  | .wordTest word | .keyword word | .sign word => word.toList.all isPlain
  | _ => true

/-- A rule leads from a place to a place: it closes the brackets that it opens. -/
inductive Crosses : Rule → Place → Place → Prop
  | inner {rule : Rule} (among : rule.isInner = true) (depth : Nat) :
      Crosses rule (.inside (depth + 1)) (.inside (depth + 1))
  | word {rule : Rule} (among : rule.isWord = true) : Crosses rule .front .front
  | closed {rule : Rule} (among : rule ∈ [Rule.parenExpr, .functionCall, .stringLiteral]) :
      Crosses rule .front (.inside 0)
  | quoted {quote : String} {c : Char} (spelled : quote.toList = [c]) (depth : Nat) :
      Crosses (.quotedInner quote) (.quoted c depth) (.quoted c depth)

/-- A body leads from a place to a place, with every bracket that is open in front of it still open. -/
inductive Runs : Atomicity → Peg Rule → Place → Place → Prop
  | plain {atomicity : Atomicity} {word : String} {place : Place} (open_ : place ≠ .inside 0)
      (plain : word.toList.all isPlain = true) : Runs atomicity (.text word) place place
  | mark {atomicity : Atomicity} {word : String} {c : Char} {place behind : Place}
      (open_ : place ≠ .inside 0) (spelled : word.toList = [c]) (steps : place.step c = behind) :
      Runs atomicity (.text word) place behind
  | character {atomicity : Atomicity} {holds : Char → Bool} {place : Place} (open_ : place ≠ .inside 0)
      (plain : ∀ c, holds c = true → isPlain c = true) : Runs atomicity (.character holds) place place
  | rule {atomicity : Atomicity} {rule : Rule} {place behind : Place} (crosses : Crosses rule place behind) :
      Runs atomicity (.rule rule) place behind
  | seq {atomicity : Atomicity} {first second : Peg Rule} {place between behind : Place}
      (front : Runs atomicity first place between) (back : Runs atomicity second between behind) :
      Runs atomicity (.seq first second) place behind
  | unquoted {atomicity : Atomicity} {quote : String} {c : Char} {depth : Nat}
      (tight : atomicity ≠ .spaced) (spelled : quote.toList = [c]) :
      Runs atomicity (.seq (.absent (.text quote)) (.character fun _ => true)) (.quoted c depth)
        (.quoted c depth)
  | choice {atomicity : Atomicity} {first second : Peg Rule} {place behind : Place}
      (left : Runs atomicity first place behind) (right : Runs atomicity second place behind) :
      Runs atomicity (.choice first second) place behind
  | optional {atomicity : Atomicity} {item : Peg Rule} {place : Place}
      (inside : Runs atomicity item place place) : Runs atomicity (.optional item) place place
  | many {atomicity : Atomicity} {item : Peg Rule} {place : Place}
      (inside : Runs atomicity item place place) : Runs atomicity (.many item) place place
  | more {atomicity : Atomicity} {item : Peg Rule} {place : Place}
      (inside : Runs atomicity item place place) : Runs atomicity (.more item) place place
  | absent {atomicity : Atomicity} {item : Peg Rule} {place behind : Place}
      (inside : Runs atomicity item place behind) (still : behind ≠ .inside 0) :
      Runs atomicity (.absent item) place place

variable {atomicity : Atomicity} {peg : Peg Rule} {place behind : Place} {text rest : List Char}
variable {whole other : List Char}

theorem Crosses.isOpen {rule : Rule} (crosses : Crosses rule place behind) : place ≠ .inside 0 := by
  cases crosses <;> nofun

theorem Runs.isOpen (runs : Runs atomicity peg place behind) : place ≠ .inside 0 := by
  induction runs with
  | plain open_ | mark open_ | character open_ => exact open_
  | rule crosses => exact crosses.isOpen
  | unquoted => nofun
  | seq _ _ ih | choice _ _ ih | optional _ ih | many _ ih | more _ ih | absent _ _ ih => exact ih

/-- A choice among words without brackets. -/
theorem runs_words {first : String} {others : List String} (open_ : place ≠ .inside 0)
    (plain : ∀ word ∈ first :: others, word.toList.all isPlain = true) :
    Runs atomicity (Peg.words first others) place place := by
  induction others generalizing first with
  | nil => exact .plain open_ (plain first List.mem_cons_self)
  | cons second others ih =>
      exact .choice (.plain open_ (plain first List.mem_cons_self))
        (ih fun word member => plain word (List.mem_cons_of_mem first member))

/-- A class without brackets and quotes. -/
theorem plain_of_class {holds : Char → Bool}
    (outside : ['(', '[', ')', ']', '"', '\''].all (!holds ·) = true) (c : Char)
    (inside : holds c = true) : isPlain c = true := by
  by_contra marked
  have among : c ∈ ['(', '[', ')', ']', '"', '\''] := by
    simp only [isPlain, opens, isQuote, Bool.not_eq_true', Bool.not_eq_false, Bool.or_eq_true,
      beq_iff_eq] at marked
    rcases marked with ((rfl | rfl) | rfl | rfl) | rfl | rfl <;> decide
  have apart := List.all_eq_true.mp outside c among
  rw [inside] at apart
  cases apart

/-- The bodies of names, variables and numbers lead from a place to the same place. -/
theorem runs_word {rule : Rule} (among : rule.isWord = true) (open_ : place ≠ .inside 0)
    (crosses : ∀ inner : Rule, inner.isWord = true → Crosses inner place place) :
    Runs atomicity rule.body place place := by
  have letter {holds : Char → Bool}
      (outside : ['(', '[', ')', ']', '"', '\''].all (!holds ·) = true) :
      Runs atomicity (.character holds) place place := .character open_ (plain_of_class outside)
  have sign {word : String} (plain : word.toList.all isPlain = true) :
      Runs atomicity (.text word) place place := .plain open_ plain
  have named {inner : Rule} (isWord : inner.isWord = true) : Runs atomicity (.rule inner) place place :=
    .rule (crosses inner isWord)
  cases rule with
  | qname => exact .seq (named rfl) (.optional (.seq (sign rfl) (named rfl)))
  | ncname => exact .seq (named rfl) (.many (named rfl))
  | nameStart => exact .choice (letter rfl) (.choice (sign rfl) (letter rfl))
  | nameChar =>
      exact .choice (letter rfl) (.choice (sign rfl) (.choice (sign rfl) (.choice (sign rfl) (letter rfl))))
  | kindName => exact .seq (runs_words open_ (by decide)) (.absent (named rfl) open_)
  | varRef => exact .seq (sign rfl) (named rfl)
  | number =>
      have digits : Runs atomicity (.seq Rule.digit (.many Rule.digit)) place place :=
        .seq (letter rfl) (.many (letter rfl))
      exact .choice (.seq digits (.optional (.seq (sign rfl) (.many (letter rfl))))) (.seq (sign rfl) digits)
  | _ => cases among

section
variable {depth : Nat}

theorem runs_inner {rule : Rule} (among : rule.isInner = true) :
    Runs atomicity (.rule rule) (.inside (depth + 1)) (.inside (depth + 1)) := .rule (.inner among depth)

theorem runs_sign {word : String} (plain : word.toList.all isPlain = true) :
    Runs atomicity (.text word) (.inside (depth + 1)) (.inside (depth + 1)) := .plain nofun plain

theorem runs_chain {operand : Rule} {operator : Peg Rule} (among : operand.isInner = true)
    (sign : Runs atomicity operator (.inside (depth + 1)) (.inside (depth + 1))) :
    Runs atomicity (Rule.chain operand operator) (.inside (depth + 1)) (.inside (depth + 1)) :=
  .seq (runs_inner among) (.many (.seq sign (runs_inner among)))

/-- What opens brackets and closes them again. -/
theorem runs_bracketed {item : Peg Rule} {left right : String} {opening closing : Char}
    (starts : left.toList = [opening]) (ends : right.toList = [closing])
    (open_ : place ≠ .inside 0) (inwards : place.step opening = .inside (depth + 1))
    (outwards : (Place.inside (depth + 1)).step closing = .inside depth)
    (inside : Runs atomicity item (.inside (depth + 1)) (.inside (depth + 1))) :
    Runs atomicity (.seq (.text left) (.seq item (.text right))) place (.inside depth) :=
  .seq (.mark open_ starts inwards) (.seq inside (.mark nofun ends outwards))

theorem runs_quoted {quote : String} {c : Char} (spelled : quote.toList = [c])
    (open_ : place ≠ .inside 0) (inwards : place.step c = .quoted c depth)
    (outwards : (Place.quoted c depth).step c = .inside depth) :
    Runs atomicity (Rule.between quote) place (.inside depth) :=
  .seq (.mark open_ spelled inwards) (.seq (.rule (.quoted spelled depth)) (.mark nofun spelled outwards))

theorem runs_stringLiteral (open_ : place ≠ .inside 0)
    (double : place.step '"' = .quoted '"' depth) (single : place.step '\'' = .quoted '\'' depth) :
    Runs atomicity Rule.stringLiteral.body place (.inside depth) :=
  .choice (runs_quoted rfl open_ double rfl) (runs_quoted rfl open_ single rfl)

theorem runs_parenExpr (open_ : place ≠ .inside 0)
    (inwards : place.step '(' = .inside (depth + 1)) :
    Runs atomicity Rule.parenExpr.body place (.inside depth) :=
  runs_bracketed rfl rfl open_ inwards rfl (runs_inner rfl)

theorem runs_functionCall (open_ : place ≠ .inside 0)
    (inwards : place.step '(' = .inside (depth + 1))
    (word : ∀ rule : Rule, rule.isWord = true → Crosses rule place place) :
    Runs atomicity Rule.functionCall.body place (.inside depth) := by
  have head : Runs atomicity (.absent (.seq (.rule .kindName) (.text "("))) place place :=
    .absent (.seq (.rule (word .kindName rfl)) (.mark open_ rfl inwards)) nofun
  have arguments : Runs atomicity
      (.optional (.seq (.rule .expr) (.many (.seq (.text ",") (.rule .expr)))))
      (.inside (depth + 1)) (.inside (depth + 1)) :=
    .optional (.seq (runs_inner rfl) (.many (.seq (runs_sign rfl) (runs_inner rfl))))
  exact .seq head (.seq (.rule (word .qname rfl)) (runs_bracketed rfl rfl open_ inwards rfl arguments))

/-- Inside brackets every rule closes just what it opens. -/
theorem runs_body_inner {rule : Rule} (among : rule.isInner = true) :
    Runs atomicity rule.body (.inside (depth + 1)) (.inside (depth + 1)) := by
  have word (inner : Rule) (isWord : inner.isWord = true) :
      Crosses inner (.inside (depth + 1)) (.inside (depth + 1)) := by
    apply Crosses.inner
    cases inner <;> first | rfl | cases isWord
  cases rule with
  | xpath | endOfInput => cases among
  | quotedInner quote => cases among
  | expr => exact runs_inner rfl
  | orExpr | andExpr | equalityExpr | relationalExpr | additiveExpr | multiplicativeExpr | unionExpr
  | relativePath => exact runs_chain rfl (runs_inner rfl)
  | unaryExpr => exact .seq (.many (runs_inner rfl)) (runs_inner rfl)
  | equalityOp | additiveOp | pathSep | abbrevStep | nodeTest =>
      exact .choice (runs_inner rfl) (runs_inner rfl)
  | relationalOp =>
      exact .choice (runs_inner rfl) (.choice (runs_inner rfl) (.choice (runs_inner rfl) (runs_inner rfl)))
  | multiplicativeOp | pathExpr | kindTest =>
      exact .choice (runs_inner rfl) (.choice (runs_inner rfl) (runs_inner rfl))
  | absolutePath =>
      exact .choice (.seq (runs_inner rfl) (runs_inner rfl))
        (.seq (runs_inner rfl) (.optional (runs_inner rfl)))
  | filterPath => exact .seq (runs_inner rfl) (.optional (.seq (runs_inner rfl) (runs_inner rfl)))
  | step => exact .choice (runs_inner rfl) (.seq (runs_inner rfl) (.many (runs_inner rfl)))
  | axisStep =>
      exact .choice (.seq (runs_inner rfl) (runs_inner rfl))
        (.choice (.seq (runs_inner rfl) (runs_inner rfl)) (runs_inner rfl))
  | axisSpec => exact .seq (runs_inner rfl) (runs_sign rfl)
  | axisName => exact .seq (runs_words nofun (by decide)) (.absent (runs_inner rfl) nofun)
  | wordTest name =>
      exact .seq (runs_inner among) (.seq (.mark nofun rfl rfl) (.mark nofun rfl rfl))
  | nameTest => exact .choice (runs_inner rfl) (.choice (runs_inner rfl) (runs_inner rfl))
  | wildcard => exact runs_sign rfl
  | prefixWildcard => exact .seq (runs_inner rfl) (runs_sign rfl)
  | predicate => exact runs_bracketed rfl rfl nofun rfl rfl (runs_inner rfl)
  | filterExpr => exact .seq (runs_inner rfl) (.many (runs_inner rfl))
  | primaryExpr =>
      exact .choice (runs_inner rfl) (.choice (runs_inner rfl) (.choice (runs_inner rfl)
        (.choice (runs_inner rfl) (runs_inner rfl))))
  | parenExpr => exact runs_parenExpr nofun rfl
  | functionCall => exact runs_functionCall nofun rfl word
  | stringLiteral => exact runs_stringLiteral nofun rfl rfl
  | qname | ncname | nameStart | nameChar | kindName | varRef | number => exact runs_word rfl nofun word
  | keyword name => exact .seq (runs_sign among) (.absent (runs_inner rfl) nofun)
  | sign name => exact runs_sign among

end

/-- A rule leads from a place to a place as its body does. -/
theorem Crosses.runs {rule : Rule} (crosses : Crosses rule place behind) :
    Runs (rule.kind.inside atomicity) rule.body place behind := by
  cases crosses with
  | inner among depth => exact runs_body_inner among
  | word among => exact runs_word among nofun fun _ isWord => .word isWord
  | closed among =>
      simp only [List.mem_cons, List.not_mem_nil, or_false] at among
      rcases among with rfl | rfl | rfl
      · exact runs_parenExpr nofun rfl
      · exact runs_functionCall nofun rfl fun _ isWord => .word isWord
      · exact runs_stringLiteral nofun rfl rfl
  | quoted spelled depth => exact .many (.unquoted nofun spelled)

theorem plain_of_isBlank {c : Char} (blank : isBlank c = true) : isPlain c = true := by
  rcases isBlank_cases blank with rfl | rfl | rfl | rfl <;> rfl

/-- Blanks close no brackets. -/
theorem Place.ends_skip (open_ : place ≠ .inside 0) (text tail : List Char) :
    place.Ends (grammar.skip atomicity text ++ tail) ↔ place.Ends (text ++ tail) := by
  cases atomicity with
  | compound | atomic => rfl
  | spaced =>
      have behind : place.Ends (text.takeWhile isBlank ++ (text.dropWhile isBlank ++ tail)) ↔
          place.Ends (text.dropWhile isBlank ++ tail) :=
        Place.ends_append_plain open_ fun c member => plain_of_isBlank (List.mem_takeWhile_imp member)
      rw [← List.append_assoc, List.takeWhile_append_dropWhile] at behind
      exact behind.symm

theorem Place.step_unquoted {quote c : Char} {depth : Nat} (apart : (c == quote) = false) :
    (Place.quoted quote depth).step c = .quoted quote depth := by
  unfold Place.step
  split
  · rfl
  · simp [apart]

def before (rest : List Char) (outcome : Outcome Rule) : Outcome Rule :=
  outcome.map fun taken => (taken.1, taken.2 ++ rest)

def closes (c : Char) : Bool := c == ')' || c == ']'

theorem closes_cases {c : Char} (closing : closes c = true) : c = ')' ∨ c = ']' := by
  simpa [closes] using closing

theorem step_closing {c : Char} (closing : closes c = true) (depth : Nat) :
    (Place.inside (depth + 1)).step c = .inside depth := by
  rcases closes_cases closing with rfl | rfl <;> rfl

theorem not_plain_of_closes {c : Char} (closing : closes c = true) : isPlain c = false := by
  rcases closes_cases closing with rfl | rfl <;> rfl

theorem not_isBlank_of_closes {c : Char} (closing : closes c = true) : isBlank c = false := by
  rcases closes_cases closing with rfl | rfl <;> rfl

/-- What a text has to have behind it, for its end to be known: nothing where all brackets are closed
there, or a closing bracket where some are still open. -/
inductive Closing (behind : Place) : List Char → Prop
  | closed : Closing behind []
  | bracket {c : Char} (closing : closes c = true) (open_ : behind ≠ .inside 0) : Closing behind [c]

theorem Closing.transfer {tail : List Char} (closing : Closing behind tail) {between : Place}
    (open_ : between ≠ .inside 0) : Closing between tail := by
  cases closing with
  | closed => exact .closed
  | bracket closes => exact .bracket closes open_

section
variable {quote : String} {c : Char} {depth : Nat} (tight : atomicity ≠ .spaced)
variable (spelled : quote.toList = [c])
include tight spelled

theorem isClass_unquoted : IsClass grammar whole atomicity
    (.seq (.absent (.text quote)) (.character fun _ => true)) (fun d => !(d == c)) :=
  (isClass_text spelled).except (tight_of_ne grammar tight)

/-- A character between quotes closes nothing. -/
theorem ends_iff_of_unquoted {trees : List (ParseTree Rule)} (derives : grammar.Derives whole atomicity
    (.seq (.absent (.text quote)) (.character fun _ => true)) text (some (trees, rest)))
    (tail : List Char) :
    (Place.quoted c depth).Ends (text ++ tail) ↔ (Place.quoted c depth).Ends (rest ++ tail) := by
  cases text with
  | nil => cases derives.unique ((isClass_unquoted tight spelled).refuses [] (leaves_nil _))
  | cons d text =>
      cases apart : d == c with
      | true =>
          cases derives.unique ((isClass_unquoted tight spelled).refuses _ (leaves_cons (by simp [apart])))
      | false =>
          cases derives.unique ((isClass_unquoted tight spelled).takes d text (by simp [apart]))
          rw [List.cons_append, Place.Ends, Place.step_unquoted apart]
          exact and_iff_right nofun

theorem unquoted_append {outcome : Outcome Rule} (derives : grammar.Derives whole atomicity
    (.seq (.absent (.text quote)) (.character fun _ => true)) text outcome) {tail : List Char}
    (closing : Closing (.quoted c depth) tail) (ends : (Place.quoted c depth).Ends (text ++ tail)) :
    grammar.Derives other atomicity (.seq (.absent (.text quote)) (.character fun _ => true))
      (text ++ (tail ++ rest)) (before (tail ++ rest) outcome) := by
  have class_ : IsClass grammar whole atomicity _ _ := isClass_unquoted tight spelled
  have otherClass : IsClass grammar other atomicity _ _ := isClass_unquoted tight spelled
  cases text with
  | nil =>
      cases derives.unique (class_.refuses [] (leaves_nil _))
      cases closing with
      | closed => exact absurd ends (Place.not_ends_nil nofun)
      | @bracket closing _ _ =>
          cases apart : closing == c with
          | true => exact otherClass.refuses _ (leaves_cons (by simp [apart]))
          | false =>
              have behind := ends.2
              rw [Place.step_unquoted apart] at behind
              exact absurd behind (Place.not_ends_nil nofun)
  | cons d text =>
      cases apart : d == c with
      | true =>
          cases derives.unique (class_.refuses _ (leaves_cons (by simp [apart])))
          exact otherClass.refuses _ (leaves_cons (by simp [apart]))
      | false =>
          cases derives.unique (class_.takes d text (by simp [apart]))
          exact otherClass.takes d _ (by simp [apart])

end

/-- What is open in front of what a body takes is closed where what is open behind it is closed. -/
theorem Runs.ends_iff {outcome : Outcome Rule} (derives : grammar.Derives whole atomicity peg text outcome)
    (runs : Runs atomicity peg place behind) {trees : List (ParseTree Rule)}
    (taken : outcome = some (trees, rest)) (tail : List Char) :
    place.Ends (text ++ tail) ↔ behind.Ends (rest ++ tail) := by
  induction derives generalizing place behind trees rest with
  | start | finish => cases runs
  | startNot | finishNot | textNot | characterNot | ruleNot | seqNotFirst | seqNotSecond | absentNot =>
      cases taken
  | text begins =>
      cases taken
      cases runs with
      | plain open_ plain =>
          rw [begins, List.append_assoc]
          exact Place.ends_append_plain open_ (List.all_eq_true.mp plain)
      | mark open_ spelled steps =>
          rw [begins, spelled, ← steps]
          exact and_iff_right open_
  | character inside =>
      cases taken
      cases runs with
      | character open_ plain =>
          rw [List.cons_append, Place.Ends, Place.step_plain (plain _ inside)]
          exact and_iff_right open_
  | rule _ _ ih =>
      cases taken
      cases runs with
      | rule crosses => exact ih crosses.runs rfl
  | seq front back frontIh backIh =>
      cases taken
      cases runs with
      | seq first second =>
          rw [frontIh first rfl, ← Place.ends_skip second.isOpen, backIh second rfl]
      | unquoted tight spelled => exact ends_iff_of_unquoted tight spelled (.seq front back) tail
  | choiceFirst _ ih =>
      cases runs with
      | choice left _ => exact ih left taken
  | choiceSecond _ _ _ ih =>
      cases runs with
      | choice _ right => exact ih right taken
  | optional _ ih =>
      cases runs with
      | optional inside => exact ih inside taken
  | optionalNone =>
      cases taken
      cases runs with
      | optional inside => rfl
  | many _ _ firstIh laterIh =>
      cases taken
      cases runs with
      | many inside => rw [firstIh inside rfl, laterIh (.more inside) rfl]
  | manyNone =>
      cases taken
      cases runs with
      | many inside => rfl
  | more _ _ nextIh laterIh =>
      cases taken
      cases runs with
      | more inside =>
          rw [← Place.ends_skip inside.isOpen, nextIh inside rfl, laterIh (.more inside) rfl]
  | moreNone =>
      cases taken
      cases runs with
      | more inside => rfl
  | absent =>
      cases taken
      cases runs with
      | absent inside _ => rfl

theorem skip_append {tail : List Char} (closing : Closing place tail) (ends : place.Ends (text ++ tail))
    (open_ : place ≠ .inside 0) (rest : List Char) :
    grammar.skip atomicity (text ++ (tail ++ rest)) = grammar.skip atomicity text ++ (tail ++ rest) := by
  cases atomicity with
  | compound | atomic => rfl
  | spaced =>
      change (text ++ (tail ++ rest)).dropWhile isBlank = text.dropWhile isBlank ++ (tail ++ rest)
      rw [List.dropWhile_append]
      split
      · rename_i none
        rw [List.isEmpty_iff] at none
        rw [none]
        cases closing with
        | closed =>
            have left : place.Ends (grammar.skip .spaced text ++ []) :=
              (Place.ends_skip open_ text []).mpr ends
            change place.Ends (text.dropWhile isBlank ++ []) at left
            rw [none] at left
            exact absurd left (Place.not_ends_nil open_)
        | bracket closes => exact List.dropWhile_cons_of_neg (by simp [not_isBlank_of_closes closes])
      · rfl

/-- A text that does not begin with a word begins with no part of it that more text could complete. -/
theorem Runs.differs_append {word : String} (runs : Runs atomicity (.text word) place behind)
    {tail : List Char} (closing : Closing behind tail) (ends : place.Ends (text ++ tail))
    (differs : ∀ left, text ≠ word.toList ++ left) (rest left : List Char) :
    text ++ (tail ++ rest) ≠ word.toList ++ left := by
  intro same
  rcases List.append_eq_append_iff.mp same with ⟨missing, spelled, goesOn⟩ | ⟨behind, begins, _⟩
  · rcases missing with _ | ⟨d, missing⟩
    · exact differs [] (by rw [spelled, List.append_nil, List.append_nil])
    -- The word goes on behind the text: with the closing bracket, if one stands there.
    cases runs with
    | plain open_ plain =>
        rw [List.all_eq_true, spelled] at plain
        cases closing with
        | closed =>
            have inside : ∀ c ∈ text, isPlain c = true := fun c member =>
              plain c (List.mem_append_left _ member)
            rw [Place.ends_append_plain open_ inside] at ends
            exact Place.not_ends_nil open_ ends
        | bracket closes =>
            have mark := plain d (List.mem_append_right _ List.mem_cons_self)
            rw [← (List.cons.inj goesOn).1, not_plain_of_closes closes] at mark
            cases mark
    | mark open_ single steps =>
        rw [single, List.singleton_eq_append_iff] at spelled
        rcases spelled with ⟨rfl, word⟩ | ⟨_, none⟩
        · cases closing with
          | closed => exact Place.not_ends_nil open_ ends
          | bracket _ still =>
              rw [← (List.cons.inj word).1, ← (List.cons.inj goesOn).1] at steps
              exact still (steps.symm.trans ends.2)
        · cases none
  · exact differs behind begins

/-- Behind the closing brackets there may be any other text: a body makes the same of what is in front of
it. -/
theorem Runs.derives_append {outcome : Outcome Rule}
    (derives : grammar.Derives whole atomicity peg text outcome) (runs : Runs atomicity peg place behind)
    {tail : List Char} (closing : Closing behind tail) (ends : place.Ends (text ++ tail))
    (other rest : List Char) :
    grammar.Derives other atomicity peg (text ++ (tail ++ rest)) (before (tail ++ rest) outcome) := by
  induction derives generalizing place behind with
  | start | startNot | finish | finishNot => cases runs
  | text begins => exact .text (by rw [begins, List.append_assoc])
  | textNot differs => exact .textNot (runs.differs_append closing ends differs rest)
  | character inside => exact .character inside
  | @characterNot _ holds text outside =>
      cases text with
      | nil =>
          cases closing with
          | closed => exact absurd ends (Place.not_ends_nil runs.isOpen)
          | bracket closes =>
              cases runs with
              | character _ plain =>
                  apply Text.Grammar.Derives.characterNot
                  rintro _ ⟨⟩
                  apply Bool.eq_false_iff.mpr
                  intro inside
                  have mark := plain _ inside
                  rw [not_plain_of_closes closes] at mark
                  cases mark
      | cons c text => exact .characterNot outside
  | rule taken _ ih =>
      cases runs with
      | rule crosses => exact .rule (by rw [taken, List.append_assoc]) (ih crosses.runs closing ends)
  | ruleNot _ ih =>
      cases runs with
      | rule crosses => exact .ruleNot (ih crosses.runs closing ends)
  | seq front back frontIh backIh =>
      cases runs with
      | seq first second =>
          have between := (first.ends_iff front rfl tail).mp ends
          have further := closing.transfer second.isOpen
          have later := backIh second closing ((Place.ends_skip second.isOpen _ tail).mpr between)
          rw [← skip_append further between second.isOpen] at later
          exact .seq (frontIh first further ends) later
      | unquoted tight spelled => exact unquoted_append tight spelled (.seq front back) closing ends
  | seqNotFirst front frontIh =>
      cases runs with
      | seq first second => exact .seqNotFirst (frontIh first (closing.transfer second.isOpen) ends)
      | unquoted tight spelled => exact unquoted_append tight spelled (.seqNotFirst front) closing ends
  | seqNotSecond front back frontIh backIh =>
      cases runs with
      | seq first second =>
          have between := (first.ends_iff front rfl tail).mp ends
          have further := closing.transfer second.isOpen
          have later := backIh second closing ((Place.ends_skip second.isOpen _ tail).mpr between)
          rw [← skip_append further between second.isOpen] at later
          exact .seqNotSecond (frontIh first further ends) later
      | unquoted tight spelled => exact unquoted_append tight spelled (.seqNotSecond front back) closing ends
  | choiceFirst _ ih =>
      cases runs with
      | choice left _ => exact .choiceFirst (ih left closing ends)
  | choiceSecond _ _ refusedIh ih =>
      cases runs with
      | choice left right => exact .choiceSecond (refusedIh left closing ends) (ih right closing ends)
  | optional _ ih =>
      cases runs with
      | optional inside => exact .optional (ih inside closing ends)
  | optionalNone _ ih =>
      cases runs with
      | optional inside => exact .optionalNone (ih inside closing ends)
  | many first _ firstIh laterIh =>
      cases runs with
      | many inside =>
          exact .many (firstIh inside closing ends)
            (laterIh (.more inside) closing ((inside.ends_iff first rfl tail).mp ends))
  | manyNone _ ih =>
      cases runs with
      | many inside => exact .manyNone (ih inside closing ends)
  | more next _ nextIh laterIh =>
      cases runs with
      | more inside =>
          have nextLater := nextIh inside closing ((Place.ends_skip inside.isOpen _ tail).mpr ends)
          rw [← skip_append closing ends inside.isOpen] at nextLater
          refine .more nextLater (laterIh (.more inside) closing ?_)
          rwa [← inside.ends_iff next rfl, Place.ends_skip inside.isOpen]
  | moreNone _ ih =>
      cases runs with
      | more inside =>
          have refused := ih inside closing ((Place.ends_skip inside.isOpen _ tail).mpr ends)
          rw [← skip_append closing ends inside.isOpen] at refused
          exact .moreNone refused
  | absent _ ih =>
      cases runs with
      | absent inside still => exact .absent (ih inside (closing.transfer still) ends)
  | absentNot _ ih =>
      cases runs with
      | absent inside still => exact .absentNot (ih inside (closing.transfer still) ends)

/-- A parenthesised expression, a call or a string is closed at its end. -/
theorem ends_of_closed {rule : Rule} (among : rule ∈ [Rule.parenExpr, .functionCall, .stringLiteral])
    {trees : List (ParseTree Rule)}
    (derives : grammar.Derives whole atomicity (.rule rule) text (some (trees, []))) :
    Place.front.Ends text := by
  have runs : Runs atomicity (.rule rule) .front (.inside 0) := .rule (.closed among)
  have ends := (runs.ends_iff derives rfl []).mpr rfl
  rwa [List.append_nil] at ends

/-- What is taken of a text that is closed at its end, is taken of it in front of any other text. -/
theorem derives_primary_append {outcome : Outcome Rule}
    (derives : grammar.Derives whole .spaced (.rule .primaryExpr) text outcome)
    (ends : Place.front.Ends text) (other rest : List Char) :
    grammar.Derives other .spaced (.rule .primaryExpr) (text ++ rest) (before rest outcome) := by
  have alternative {rule : Rule} {behind : Place} (crosses : Crosses rule .front behind)
      (outcome : Outcome Rule) (inside : grammar.Derives whole .spaced (.rule rule) text outcome) :
      grammar.Derives other .spaced (.rule rule) (text ++ rest) (before rest outcome) :=
    Runs.derives_append inside (.rule crosses) .closed (by rwa [List.append_nil]) other rest
  have choice {first second : Peg Rule}
      (left : ∀ outcome, grammar.Derives whole .spaced first text outcome →
        grammar.Derives other .spaced first (text ++ rest) (before rest outcome))
      (right : ∀ outcome, grammar.Derives whole .spaced second text outcome →
        grammar.Derives other .spaced second (text ++ rest) (before rest outcome))
      (outcome : Outcome Rule) (inside : grammar.Derives whole .spaced (.choice first second) text outcome) :
      grammar.Derives other .spaced (.choice first second) (text ++ rest) (before rest outcome) := by
    cases inside with
    | choiceFirst matched => exact .choiceFirst (left _ matched)
    | choiceSecond refused matched => exact .choiceSecond (left _ refused) (right _ matched)
  have body : ∀ outcome, grammar.Derives whole .spaced Rule.primaryExpr.body text outcome →
      grammar.Derives other .spaced Rule.primaryExpr.body (text ++ rest) (before rest outcome) :=
    choice (alternative (.word rfl)) (choice (alternative (.closed (by decide)))
      (choice (alternative (.closed (by decide))) (choice (alternative (.word rfl))
        (alternative (.closed (by decide))))))
  cases derives with
  | rule taken inside => exact .rule (by rw [taken, List.append_assoc]) (body _ inside)
  | ruleNot inside => exact .ruleNot (body _ inside)

end NodeQuery.Expr

import NodeQuery.Proofs.Expr.Levels

/-!
# Where reading gets stuck

Not every text that is written for an expression is one.  A rule that cannot go on with such a text
either refuses it or stops at a character that neither closes anything nor is an operator, and then all
rules around it stop there too: no bracket is closed, no argument ends, and the text is refused as a
whole.
-/

namespace NodeQuery.Expr

open Text (Reader)
open Text.Reader

variable {α β γ : Type} {class_ : Char → Bool} {sub : Reader Expr} {text rest : List Char}

/-- A text that begins, blanks apart, with a character of a class. -/
def Begins (class_ : Char → Bool) (text : List Char) : Prop :=
  ∃ c others, dropBlanks text = c :: others ∧ class_ c = true

theorem Begins.cons {c : Char} (solid : isBlank c = false) (inside : class_ c = true) :
    Begins class_ (c :: rest) :=
  ⟨c, rest, dropBlanks_of_leaves (leaves_cons solid), inside⟩

theorem Begins.skipped (begins : Begins class_ text) : Begins class_ (dropBlanks text) := by
  rw [Begins, dropBlanks_dropBlanks]
  exact begins

theorem Begins.mono {other : Char → Bool} (begins : Begins class_ text)
    (wider : ∀ c, class_ c = true → other c = true) : Begins other text := by
  rcases begins with ⟨c, others, spelled, inside⟩
  exact ⟨c, others, spelled, wider c inside⟩

/-- What begins with a character of a class does not begin with a token of another. -/
theorem Begins.token_none (begins : Begins class_ text) {expected : String} {c : Char} {others : List Char}
    (spelled : expected.toList = c :: others) (outside : class_ c = false) :
    token expected (dropBlanks text) = none := by
  rcases begins with ⟨first, behind, found, inside⟩
  rw [found]
  apply token_of_leaves (leaves_cons _) spelled
  rw [beq_eq_false_iff_ne]
  rintro rfl
  rw [inside] at outside
  cases outside

/-- A reader refuses a text or stops in front of a character of a class. -/
def Stalls (class_ : Char → Bool) (reader : Reader α) (text : List Char) : Prop :=
  ∀ value rest, reader text = some (value, rest) → Begins class_ rest

theorem Stalls.of_none {reader : Reader α} (refused : reader text = none) :
    Stalls class_ reader text := by
  intro value rest given
  rw [refused] at given
  cases given

theorem Stalls.mono {other : Char → Bool} {reader : Reader α} (stalls : Stalls class_ reader text)
    (wider : ∀ c, class_ c = true → other c = true) : Stalls other reader text :=
  fun value rest given => (stalls value rest given).mono wider

/-- A reader that skips blanks and goes on behind another stalls where the other does and it takes
nothing of what is left. -/
theorem Stalls.bind {reader : Reader α} {next : α → Reader β} (stalls : Stalls class_ reader text)
    (idle : ∀ value rest, Begins class_ rest → Stalls class_ (next value) (dropBlanks rest)) :
    Stalls class_ (do let value ← reader; blanks; next value) text := by
  intro last left given
  rcases exists_of_bind given with ⟨value, rest, taken, behind⟩
  rw [bind_of_some (blanks_apply rest)] at behind
  exact idle value rest (stalls value rest taken) last left behind

theorem Stalls.map {reader : Reader α} (stalls : Stalls class_ reader text) (build : α → β) :
    Stalls class_ (do let value ← reader; pure (build value)) text := by
  intro last left given
  rcases exists_of_bind given with ⟨value, rest, taken, same⟩
  cases same
  exact stalls value _ taken

theorem spaced_of_none {item : Reader α} (stops : item text = none) :
    spaced item text = some ([], text) := by
  rw [spaced]
  exact (orElse_of_none (bind_of_none stops)).trans rfl

/-- Items off the front of a text until one stops in front of a character that no item begins with. -/
inductive Halts (class_ : Char → Bool) (item : Reader α) : List Char → Prop
  | last {narrow : Char → Bool} {text : List Char} (begins : Begins class_ text)
      (stalls : Stalls narrow item (dropBlanks text))
      (stops : ∀ rest, Begins narrow rest → item (dropBlanks rest) = none)
      (wider : ∀ c, narrow c = true → class_ c = true) : Halts class_ item text
  | more {text after : List Char} {first : α} (begins : Begins class_ text)
      (reads : Reads item (dropBlanks text) first after) (halts : Halts class_ item after) :
      Halts class_ item text

/-- An item that is refused. -/
theorem Halts.of_none {item : Reader α} (begins : Begins class_ text)
    (refused : item (dropBlanks text) = none) : Halts class_ item text := by
  have stalls : Stalls (fun _ => false) item (dropBlanks text) := .of_none refused
  exact .last begins stalls (fun _ ⟨_, _, _, impossible⟩ => by cases impossible)
    fun _ impossible => by cases impossible

theorem Halts.begins {item : Reader α} (halts : Halts class_ item text) : Begins class_ text := by
  cases halts with
  | last begins => exact begins
  | more begins => exact begins

theorem manyAlong_of_none {item : Reader α} {left : List Char} (refused : item left = none)
    (limit : List Char) : manyAlong item limit left = some ([], left) := by
  cases limit with
  | nil => rfl
  | cons c limit =>
      rw [manyAlong]
      exact (orElse_of_none (bind_of_none refused)).trans rfl

theorem manyAlong_of_halts {item : Reader α} (halts : Halts class_ item text) {left : List Char}
    (behind : Behind left text) (limit : List Char) :
    ∃ values rest, manyAlong (do blanks; item) limit left = some (values, rest) ∧
      Begins class_ rest := by
  have inFront {text left : List Char} (behind : Behind left text) (begins : Begins class_ text) :
      Begins class_ left := by
    rw [Begins, behind.dropBlanks_eq]
    exact begins
  have spelled {text left : List Char} (behind : Behind left text) :
      (do blanks; item : Reader α) left = item (dropBlanks text) := by
    rw [bind_of_some (blanks_apply left), behind.dropBlanks_eq]
  have goOn {c : Char} {limit left next rest : List Char} {first : α} {values : List α}
      (taken : (do blanks; item : Reader α) left = some (first, next))
      (later : manyAlong (do blanks; item) limit next = some (values, rest)) :
      manyAlong (do blanks; item) (c :: limit) left = some (first :: values, rest) := by
    rw [manyAlong]
    apply orElse_of_some
    rw [bind_of_some taken, bind_of_some later]
    rfl
  induction halts generalizing left limit with
  | @last narrow text begins stalls stops wider =>
      cases taken : item (dropBlanks text) with
      | none =>
          exact ⟨[], left, manyAlong_of_none ((spelled behind).trans taken) limit,
            inFront behind begins⟩
      | some found =>
          have beginsAfter := stalls found.1 found.2 taken
          have refused := (spelled (Behind.refl found.2)).trans (stops found.2 beginsAfter)
          cases limit with
          | nil => exact ⟨[], left, rfl, inFront behind begins⟩
          | cons c limit =>
              exact ⟨[found.1], found.2, goOn ((spelled behind).trans taken)
                (manyAlong_of_none refused limit), beginsAfter.mono wider⟩
  | more begins reads halts ih =>
      rcases reads with ⟨next, taken, nextBehind⟩
      cases limit with
      -- Where the limit is used up, reading stops in front of an item, which begins so as well.
      | nil => exact ⟨[], left, rfl, inFront behind begins⟩
      | cons c limit =>
          rcases ih nextBehind limit with ⟨values, rest, later, ends⟩
          exact ⟨_ :: values, rest, goOn ((spelled behind).trans taken) later, ends⟩

theorem Halts.repeated {item : Reader α} (halts : Halts class_ item text) :
    Stalls class_ (spaced item) (dropBlanks text) := by
  have stops : ∃ values rest, spaced item (dropBlanks text) = some (values, rest) ∧
      Begins class_ rest := by
    cases taken : item (dropBlanks text) with
    | none => exact ⟨[], _, spaced_of_none taken, halts.begins.skipped⟩
    | some found =>
        rcases manyAlong_of_halts halts (Or.inr rfl) (' ' :: found.2) with ⟨values, rest, along, ends⟩
        refine ⟨values, rest, ?_, ends⟩
        have first : (do blanks; item : Reader α) (dropBlanks text) = some found := by
          rw [bind_of_some (blanks_apply _), dropBlanks_dropBlanks, taken]
        rw [← along, spaced, manyAlong, orElse_apply, orElse_apply, bind_of_some taken,
          bind_of_some first]
        rfl
  intro values rest given
  rcases stops with ⟨_, _, same, ends⟩
  rw [given] at same
  cases same
  exact ends

section
variable {reader : Reader α} {item : Reader β}

/-- A reader with items behind it stalls where the reader does and no item begins so. -/
theorem Stalls.ahead (stalls : Stalls class_ reader text)
    (stops : ∀ rest, Begins class_ rest → item (dropBlanks rest) = none) (build : α → List β → γ) :
    Stalls class_ (do
      let first ← reader
      blanks
      let others ← spaced item
      pure (build first others)) text := by
  refine stalls.bind fun first rest begins => ?_
  intro value left given
  rw [bind_of_some (spaced_of_none (stops rest begins))] at given
  cases given
  exact begins.skipped

/-- It also stalls where reading halts at the items. -/
theorem Halts.behind {middle : List Char} {first : α} (reads : Reads reader text first middle)
    (halts : Halts class_ item middle) (build : α → List β → γ) :
    Stalls class_ (do
      let first ← reader
      blanks
      let others ← spaced item
      pure (build first others)) text := by
  intro value left given
  rw [reads.bind_blanks] at given
  exact halts.repeated.map (build first) value left given

end

/-- Operands with operators between them stall where the first does and no operator begins so. -/
theorem Stalls.grouped {operand : Reader Expr} {operator : Reader Operator}
    (stalls : Stalls class_ operand text)
    (stops : ∀ rest, Begins class_ rest → operator (dropBlanks rest) = none) :
    Stalls class_ (leftGrouped operand operator) text :=
  stalls.ahead (fun rest begins => operation_stops (stops rest begins)) _

/-- A bar, or a character with which a name or a path goes on. -/
def isStuck (c : Char) : Bool := goesOn c || c == '|'

/-- A character that goes on with a name or a path begins no operator, and a bar only that of
unions. -/
theorem Begins.no_operator (begins : Begins isStuck rest) {level : Nat}
    (above : Begins goesOn rest ∨ level ≠ 0) : levelOperator level (dropBlanks rest) = none := by
  rcases begins with ⟨c, others, spelled, stuck⟩
  have solid : isBlank c = false := by
    have leaves := leaves_dropBlanks rest
    rw [spelled] at leaves
    exact leaves c rfl
  have known : c = '|' ∨ c = '(' ∨ c = ':' ∨ c = '[' ∨ c = '/' := by
    simp only [isStuck, goesOn, solid, Bool.false_or, Bool.or_eq_true, beq_iff_eq] at stuck
    tauto
  have unbarred (bar : c = '|') : level ≠ 0 := by
    refine above.resolve_left ?_
    rintro ⟨other, _, same, stops⟩
    rw [spelled] at same
    cases same
    rw [bar] at stops
    cases stops
  rw [spelled]
  rcases known with rfl | rfl | rfl | rfl | rfl
  · rcases level with _ | _ | _ | _ | _ | _ | level
    · exact absurd rfl (unbarred rfl)
    all_goals rfl
  all_goals rcases level with _ | _ | _ | _ | _ | _ | level <;> rfl

theorem isStuck_of_goesOn (c : Char) (stuck : goesOn c = true) : isStuck c = true := by
  rw [isStuck, stuck, Bool.true_or]

theorem Begins.no_operator_of_goesOn (begins : Begins goesOn rest) (level : Nat) :
    levelOperator level (dropBlanks rest) = none :=
  (begins.mono isStuck_of_goesOn).no_operator (.inl begins)

theorem Stalls.signs {signs : List Unit} {next : List Char} (items : Items (token "-") text signs next)
    (stalls : Stalls class_ (unionLevel sub) (dropBlanks next)) :
    Stalls class_ (unaryLevel sub) (dropBlanks text) := by
  intro value rest given
  rw [unaryLevel, (spaced_of_items items).bind_blanks] at given
  exact stalls.map _ value rest given

/-- Without a sign, and with one. -/
theorem Stalls.unary (unsigned : Unsigned text) (stalls : Stalls class_ (unionLevel sub) text) :
    Stalls class_ (unaryLevel sub) text ∧ Stalls class_ (unaryLevel sub) ('-' :: text) := by
  have solid := dropBlanks_of_leaves unsigned.1
  have single : Items (token "-") ('-' :: text) [()] text :=
    .more (Reads.of_eq rfl) (Nat.lt_succ_self _) (.done unsigned.stops)
  rw [← solid] at stalls
  have plain := stalls.signs (.done unsigned.stops)
  rw [solid] at plain
  exact ⟨plain, stalls.signs single⟩

/-- An operand that stalls makes every higher level stall. -/
theorem Stalls.climb {level above : Nat} (le : level ≤ above) (known : above ≤ 7)
    (unsigned : level = 0 → Unsigned text) (stalls : Stalls class_ (levelOperand sub level) text)
    (stops : ∀ between, level ≤ between → ∀ rest, Begins class_ rest →
      levelOperator between (dropBlanks rest) = none) :
    Stalls class_ (levelOperand sub above) text := by
  induction above, le using Nat.le_induction with
  | base => exact stalls
  | succ above le ih =>
      have lower := (ih (by omega)).grouped (stops above le)
      rcases Nat.eq_zero_or_pos above with rfl | positive
      · exact (lower.unary (unsigned (by omega))).1
      · have bound : above < 7 := known
        interval_cases above <;> exact lower

/-!
## Texts that are stuck

Such a text is stuck at a place of its own, so it makes no difference what is put behind it.
-/

section
variable {holds : Char → Prop}

theorem begins_append (begins : ∃ c others, text = c :: others ∧ holds c) (rest : List Char) :
    ∃ c others, text ++ rest = c :: others ∧ holds c := by
  rcases begins with ⟨c, others, spelled, apart⟩
  exact ⟨c, others ++ rest, by rw [spelled, List.cons_append], apart⟩

theorem dropBlanks_of_begins (begins : ∃ c others, text = c :: others ∧ isBlank c = false ∧ holds c)
    (rest : List Char) : dropBlanks (text ++ rest) = text ++ rest := by
  rcases begins with ⟨c, others, rfl, solid, _⟩
  exact dropBlanks_of_leaves (leaves_cons solid)

end

/-- A text that no path gets beyond, whatever follows it. -/
structure Blocks (text : List Char) : Prop where
  begins : ∃ c others, text = c :: others ∧ isBlank c = false ∧ c ≠ '-' ∧ c ≠ ')'
  stalls : ∀ limit rest, Stalls goesOn (path (exprUpTo limit)) (text ++ rest)

/-- A text that no expression gets beyond, whatever follows it. -/
structure Jams (text : List Char) : Prop where
  begins : ∃ c others, text = c :: others ∧ isBlank c = false ∧ c ≠ ')'
  stalls : ∀ limit rest, Stalls goesOn (exprUpTo limit) (text ++ rest)

theorem Blocks.unsigned (blocks : Blocks text) (rest : List Char) : Unsigned (text ++ rest) := by
  rcases blocks.begins with ⟨c, others, spelled, solid, plain, _⟩
  exact unsigned_of_begins ⟨c, others, spelled, solid, plain⟩ rest

theorem Blocks.append (blocks : Blocks text) (more : List Char) : Blocks (text ++ more) where
  begins := begins_append blocks.begins more
  stalls limit rest := by
    rw [List.append_assoc]
    exact blocks.stalls limit (more ++ rest)

theorem Jams.append (jams : Jams text) (more : List Char) : Jams (text ++ more) where
  begins := begins_append jams.begins more
  stalls limit rest := by
    rw [List.append_assoc]
    exact jams.stalls limit (more ++ rest)

theorem Jams.of_unary (begins : ∃ c others, text = c :: others ∧ isBlank c = false ∧ c ≠ ')')
    (stalls : ∀ limit rest, Stalls goesOn (unaryLevel (exprUpTo limit)) (text ++ rest)) :
    Jams text where
  begins := begins
  stalls limit rest := by
    cases limit with
    | zero => exact .of_none rfl
    | succ limit =>
        have above : 1 ≤ 7 := by decide
        exact Stalls.climb above (Nat.le_refl 7)
          (fun impossible => absurd impossible Nat.one_ne_zero) (stalls limit rest)
          fun between _ rest begins => begins.no_operator_of_goesOn between

/-- With or without a minus sign in front, what no path gets beyond no expression does. -/
theorem Blocks.jams (blocks : Blocks text) : Jams text ∧ Jams ('-' :: text) := by
  have union (limit : Nat) (rest : List Char) :
      Stalls goesOn (unionLevel (exprUpTo limit)) (text ++ rest) :=
    (blocks.stalls limit rest).grouped fun rest begins => begins.no_operator_of_goesOn 0
  have unary (limit : Nat) (rest : List Char) := (union limit rest).unary (blocks.unsigned rest)
  constructor
  · refine Jams.of_unary ?_ fun limit rest => (unary limit rest).1
    rcases blocks.begins with ⟨c, others, spelled, solid, _, open_⟩
    exact ⟨c, others, spelled, solid, open_⟩
  · exact Jams.of_unary ⟨'-', text, rfl, rfl, by decide⟩ fun limit rest => (unary limit rest).2

theorem Reads.stalls {reader : Reader α} {value : α} (reads : Reads reader text value rest)
    (begins : Begins class_ rest) : Stalls class_ reader text := by
  intro other left given
  rcases reads with ⟨last, same, behind⟩
  rw [given] at same
  cases same
  rw [Begins, behind.dropBlanks_eq]
  exact begins

/-- Arguments that do not come to the closing parenthesis. -/
def Unclosed (sub : Reader Expr) (text : List Char) : Prop :=
  ∀ given rest, maybe (commaSeparated sub) (dropBlanks text) = some (given, rest) →
    token ")" (dropBlanks rest) = none

theorem unclosed_of_stalls (begins : ∃ c others, text = c :: others ∧ isBlank c = false ∧ c ≠ ')')
    (stalls : Stalls class_ (commaSeparated sub) text) (outside : class_ ')' = false) :
    Unclosed sub text := by
  rcases begins with ⟨c, others, spelled, solid, open_⟩
  have trimmed : dropBlanks text = text := by
    rw [spelled]
    exact dropBlanks_of_leaves (leaves_cons solid)
  intro given rest taken
  rw [trimmed] at taken
  cases found : commaSeparated sub text with
  | none =>
      rw [maybe_of_none found] at taken
      cases taken
      rw [trimmed, spelled]
      exact token_of_leaves (leaves_cons (beq_eq_false_iff_ne.mpr open_)) rfl
  | some result =>
      rw [maybe_of_some found] at taken
      cases taken
      exact (stalls result.1 _ found).token_none rfl outside

/-- Arguments of which the first jams. -/
theorem Jams.unclosed (jams : Jams text) (limit : Nat) (rest : List Char) :
    Unclosed (exprUpTo limit) (text ++ rest) := by
  have stops (behind : List Char) (stuck : Begins goesOn behind) :
      afterComma (exprUpTo limit) (dropBlanks behind) = none := bind_of_none (stuck.token_none rfl rfl)
  have stalls : Stalls goesOn (commaSeparated (exprUpTo limit)) (text ++ rest) :=
    (jams.stalls limit rest).ahead stops List.cons
  exact unclosed_of_stalls (begins_append jams.begins rest) stalls rfl

/-- Arguments of which the second jams. -/
theorem Jams.unclosed_second {first : List Char} {value : Expr} (body : Body 1 first value)
    (open_ : ∀ c ∈ first.head?, c ≠ ')') (jams : Jams text) (limit : Nat) (rest : List Char) :
    Unclosed (exprUpTo limit) (first ++ ',' :: ' ' :: (text ++ rest)) := by
  let isLate (c : Char) : Bool := goesOn c || c == ','
  have begins : ∃ c others, first ++ ',' :: ' ' :: (text ++ rest) = c :: others ∧
      isBlank c = false ∧ c ≠ ')' := by
    rcases body.begins with ⟨c, others, spelled, solid⟩
    exact ⟨c, _, by rw [spelled, List.cons_append], solid, open_ c (by rw [spelled]; rfl)⟩
  have outside : isLate ')' = false := rfl
  refine unclosed_of_stalls begins ?_ outside
  cases limit with
  | zero => exact .of_none (bind_of_none rfl)
  | succ limit =>
      have reads := body.reads (limit + 1) (Nat.le_add_left 1 limit) _ (.comma (' ' :: (text ++ rest)))
      have solid : dropBlanks (' ' :: (text ++ rest)) = text ++ rest :=
        dropBlanks_of_begins jams.begins rest
      have later : Stalls goesOn (afterComma (exprUpTo (limit + 1)))
          (',' :: ' ' :: (text ++ rest)) := by
        intro second left given
        have comma : token "," (',' :: ' ' :: (text ++ rest)) = some ((), ' ' :: (text ++ rest)) := rfl
        rw [afterComma, bind_of_some comma, bind_of_some (blanks_apply _), solid] at given
        exact jams.stalls (limit + 1) rest second left given
      have halts : Halts isLate (afterComma (exprUpTo (limit + 1))) (',' :: ' ' :: (text ++ rest)) :=
        .last (.cons rfl rfl) later (fun behind stuck => bind_of_none (stuck.token_none rfl rfl))
          fun c stuck => by simp only [isLate, stuck, Bool.true_or]
      exact halts.behind reads List.cons

section
variable {chars : List Char} (isName : IsName chars)
include isName

/-- A name whose arguments do not come to an end calls nothing. -/
theorem functionCall_of_unclosed (unclosed : Unclosed sub text) :
    functionCall sub (chars ++ '(' :: text) = none := by
  have opened : token "(" ('(' :: text) = some ((), text) := rfl
  rw [functionCall, bind_apply]
  rcases ahead : absent (do testWord; blanks; token "(" : Reader Unit) (chars ++ '(' :: text) with
    _ | ⟨_, left⟩
  · rfl
  · rw [(none_of_absent ahead).2, Option.bind_some, bind_of_some (blanks_apply _), isName.dropBlanks_eq,
      bind_of_some (name_append (.simple isName) (leaves_cons rfl) (leaves_cons rfl)),
      bind_of_some (blanks_apply _), dropBlanks_of_leaves (leaves_cons rfl), bind_of_some opened,
      bind_of_some (blanks_apply _), bind_apply]
    rcases taken : maybe (commaSeparated sub) (dropBlanks text) with _ | ⟨given, rest⟩
    · rfl
    · rw [Option.bind_some, bind_of_some (blanks_apply rest), bind_of_none (unclosed given rest taken)]

/-- Nor does a word that stands for a test. -/
theorem functionCall_of_testWord (listed : String.ofList chars ∈ testWords) (text : List Char) :
    functionCall sub (chars ++ '(' :: text) = none := by
  have opened : token "(" ('(' :: text) = some ((), text) := rfl
  have word : testWord (chars ++ '(' :: text) = some ((), '(' :: text) := by
    rw [testWord_append isName (leaves_cons rfl), if_pos listed]
  have found : (do testWord; blanks; token "(" : Reader Unit) (chars ++ '(' :: text) =
      some ((), text) := by
    rw [bind_of_some word, bind_of_some (blanks_apply _), dropBlanks_of_leaves (leaves_cons rfl), opened]
  apply bind_of_none
  rw [absent, found]

/-- A name is a test where a parenthesis follows that is not closed at once. -/
theorem nodeTest_of_open (open_ : Leaves (· == ')') (dropBlanks text)) :
    nodeTest (chars ++ '(' :: text) = some (.named (String.ofList chars), '(' :: text) := by
  have word (expected : String) (meaning : NodeTest) :
      wordTest expected meaning (chars ++ '(' :: text) = none := by
    have opened : token "(" ('(' :: text) = some ((), text) := rfl
    have closed : token ")" (dropBlanks text) = none := token_of_leaves open_ rfl
    rw [wordTest, bind_apply, keyword_append isName (leaves_cons rfl)]
    split
    · rw [Option.bind_some, bind_of_some (blanks_apply _), dropBlanks_of_leaves (leaves_cons rfl),
        bind_of_some opened, bind_of_some (blanks_apply _), bind_of_none closed]
    · rfl
  have kind : kindTest (chars ++ '(' :: text) = none := by
    rw [kindTest, orElse_of_none (word "node" .node), orElse_of_none (word "text" .text),
      word "comment" .comment]
  have star : token "*" (chars ++ '(' :: text) = none := token_of_leaves (isName.leaves rfl) rfl
  have anyPrefixed : token ":*" ('(' :: text) = none := token_of_leaves (leaves_cons rfl) rfl
  rw [nodeTest, orElse_of_none kind, nameTest, orElse_of_none (bind_of_none star), orElse_of_none]
  · rw [bind_of_some (name_append (.simple isName) (leaves_cons rfl) (leaves_cons rfl))]
    rfl
  · rw [bind_of_some (simpleName_append isName (leaves_cons rfl)), bind_of_none anyPrefixed]

/-- Then a path stops at the parenthesis. -/
theorem path_of_uncalled (open_ : Leaves (· == ')') (dropBlanks text))
    (uncalled : functionCall sub (chars ++ '(' :: text) = none) :
    Stalls goesOn (path sub) (chars ++ '(' :: text) := by
  have sign : token "@" (chars ++ '(' :: text) = none := token_of_leaves (isName.leaves rfl) rfl
  have axis : namedAxis (chars ++ '(' :: text) = none :=
    namedAxis_of_name isName (leaves_cons rfl) (token_of_leaves (leaves_cons rfl) rfl)
  have given : axisAndTest (chars ++ '(' :: text) =
      some ((.child, .named (String.ofList chars)), '(' :: text) := by
    refine (orElse_of_none axis).trans ((orElse_of_none (bind_of_none sign)).trans ?_)
    rw [bind_of_some (nodeTest_of_open isName open_)]
    rfl
  have only : Reads (step sub) (chars ++ '(' :: text) (.mk .child (.named (String.ofList chars)) [])
      ('(' :: text) := step_of_predicates (isName.leaves rfl) given (.done rfl)
  have steps : Reads (steps sub) (chars ++ '(' :: text)
      [.mk .child (.named (String.ofList chars)) []] ('(' :: text) := steps_of_items only (.done rfl)
  have unfiltered : primary sub (chars ++ '(' :: text) = none := by
    rw [primary_of_name _ (.simple isName), uncalled]
  have reads := path_of_steps (isName.leaves rfl) unfiltered steps fun only same => by
    cases same
    rfl
  exact reads.stalls (.cons rfl rfl)

/-- Names begin with none of the characters that close or negate. -/
theorem begins_of_isName (behind : List Char) :
    ∃ c others, chars ++ behind = c :: others ∧ isBlank c = false ∧ c ≠ '-' ∧ c ≠ ')' := by
  rcases isName.head with ⟨c, others, spelled, start⟩
  have apart (other : Char) (outside : isNameStart other = false) : c ≠ other := by
    rintro rfl
    rw [start] at outside
    cases outside
  have solid : isBlank c = false := by
    rw [Bool.eq_false_iff]
    intro blank
    rcases isBlank_cases blank with rfl | rfl | rfl | rfl <;> exact apart _ rfl rfl
  exact ⟨c, others ++ behind, by rw [spelled, List.cons_append], solid, apart '-' rfl, apart ')' rfl⟩

/-- A call whose arguments do not come to an end. -/
theorem Blocks.call (begins : ∃ c others, text = c :: others ∧ isBlank c = false ∧ c ≠ ')')
    (unclosed : ∀ limit rest, Unclosed (exprUpTo limit) (text ++ rest)) :
    Blocks (chars ++ '(' :: text) where
  begins := begins_of_isName isName _
  stalls limit rest := by
    rw [List.append_assoc, List.cons_append]
    refine path_of_uncalled isName ?_ (functionCall_of_unclosed isName (unclosed limit rest))
    rcases begins with ⟨c, others, spelled, solid, open_⟩
    rw [spelled, List.cons_append, dropBlanks_of_leaves (leaves_cons solid)]
    exact leaves_cons (beq_eq_false_iff_ne.mpr open_)

/-- A call whose first argument jams. -/
theorem Jams.call (jams : Jams text) : Blocks (chars ++ '(' :: text) :=
  Blocks.call isName jams.begins jams.unclosed

/-- A call whose second argument jams. -/
theorem Jams.call_second {first : List Char} {value : Expr} (body : Body 1 first value)
    (open_ : ∀ c ∈ first.head?, c ≠ ')') (jams : Jams text) :
    Blocks (chars ++ '(' :: (first ++ ',' :: ' ' :: text)) := by
  refine Blocks.call isName ?_ fun limit rest => ?_
  · rcases body.begins with ⟨c, others, spelled, solid⟩
    exact ⟨c, _, by rw [spelled, List.cons_append], solid, open_ c (by rw [spelled]; rfl)⟩
  · rw [List.append_assoc, List.cons_append, List.cons_append]
    exact jams.unclosed_second body open_ limit rest

/-- A word that stands for a test with anything in parentheses behind it. -/
theorem Blocks.of_testWord (listed : String.ofList chars ∈ testWords) {c : Char}
    (solid : isBlank c = false) (open_ : c ≠ ')') : Blocks (chars ++ ['(', c]) where
  begins := begins_of_isName isName _
  stalls limit rest := by
    rw [List.append_assoc]
    refine path_of_uncalled isName ?_ (functionCall_of_testWord isName listed _)
    change Leaves _ (dropBlanks (c :: rest))
    rw [dropBlanks_of_leaves (leaves_cons solid)]
    exact leaves_cons (beq_eq_false_iff_ne.mpr open_)

end

theorem axisAndTest_minus (text : List Char) : axisAndTest ('-' :: text) = none := by
  have axis : namedAxis ('-' :: text) = none := by
    have unknown : Axis.ofName? (String.ofList ('-' :: text.takeWhile isNameChar)) = none := by
      rw [Axis.ofName?, List.find?_eq_none]
      intro axis _ same
      have spelled := congrArg String.toList (eq_of_beq same)
      rw [String.toList_ofList] at spelled
      cases axis <;> cases spelled
    have taken : run isNameChar ('-' :: text) =
        some ('-' :: text.takeWhile isNameChar, text.dropWhile isNameChar) := run_cons rfl text
    rw [namedAxis, axisName, bind_assoc, bind_of_some taken, unknown]
    rfl
  refine (orElse_of_none axis).trans ?_
  rfl

theorem step_minus (text : List Char) : step sub ('-' :: text) = none := by
  have dots : dotStep ('-' :: text) = none := rfl
  rw [step, orElse_of_none dots, bind_of_none (axisAndTest_minus text)]

/-- An attribute whose name has a sign. -/
theorem Blocks.attribute (text : List Char) : Blocks ('@' :: '-' :: text) where
  begins := ⟨'@', '-' :: text, rfl, rfl, by decide, by decide⟩
  stalls limit rest := .of_none rfl

/-- The name of an axis is read as a test where no test is behind its colons. -/
theorem step_unreadable (axis : Axis) (text : List Char) :
    step sub (axis.name.toList ++ ':' :: ':' :: '-' :: text) =
      some (.mk .child (.named axis.name) [], ':' :: ':' :: '-' :: text) := by
  cases axis <;> rfl

/-- A path along an axis to a name with a sign. -/
theorem Blocks.along (axis : Axis) (text : List Char) :
    Blocks (axis.name.toList ++ ':' :: ':' :: '-' :: text) where
  begins := begins_of_isName (isName_axis axis) _
  stalls limit rest := by
    have begins : BeginsAxis (axis.name.toList ++ ':' :: ':' :: '-' :: (text ++ rest)) := ⟨axis, _, rfl⟩
    have only : Reads (step (exprUpTo limit)) (axis.name.toList ++ ':' :: ':' :: '-' :: (text ++ rest))
        (.mk .child (.named axis.name) []) (':' :: ':' :: '-' :: (text ++ rest)) :=
      Reads.of_eq (step_unreadable axis _)
    have reads := path_of_steps (begins.leaves rfl) (begins.primary_none _)
      (steps_of_items only (.done rfl)) fun only same => by
        cases same
        rfl
    rw [List.append_assoc]
    exact reads.stalls (.cons rfl rfl)

def isOpen (c : Char) : Bool := c == '[' || c == ':'

theorem goesOn_of_isOpen (c : Char) (open_ : isOpen c = true) : goesOn c = true := by
  simp only [isOpen, Bool.or_eq_true, beq_iff_eq] at open_
  rcases open_ with rfl | rfl <;> rfl

theorem Begins.no_nextStep (begins : Begins isOpen rest) : nextStep sub (dropBlanks rest) = none := by
  apply bind_of_none
  rw [separator, orElse_of_none (bind_of_none (begins.token_none rfl rfl)),
    bind_of_none (begins.token_none rfl rfl)]

/-- A step stalls where its predicates do. -/
theorem Halts.step {axis : Axis} {test : NodeTest} {middle : List Char}
    (undotted : Leaves (· == '.') text) (given : axisAndTest text = some ((axis, test), middle))
    (halts : Halts class_ (predicate sub) middle) : Stalls class_ (step sub) text := by
  have dots : dotStep text = none := by
    rw [dotStep, orElse_of_none (bind_of_none (token_of_leaves undotted rfl)),
      bind_of_none (token_of_leaves undotted rfl)]
  intro only left taken
  rw [Expr.step, orElse_of_none dots, bind_of_some given] at taken
  dsimp only at taken
  rw [bind_of_some (blanks_apply _)] at taken
  exact halts.repeated.map _ only left taken

/-- A step behind slashes stalls where it stalls without them. -/
theorem Stalls.nextStep {middle : List Char} {between : List Step}
    (slashes : separator text = some (between, middle)) (solid : Leaves isBlank middle)
    (stalls : Stalls class_ (step sub) middle) : Stalls class_ (nextStep sub) text := by
  intro taken left given
  rw [Expr.nextStep, bind_of_some slashes, bind_of_some (blanks_apply _),
    dropBlanks_of_leaves solid] at given
  exact stalls.map _ taken left given

/-- What steps begin with stalls them. -/
theorem Stalls.steps (stalls : Stalls isOpen (step sub) text) : Stalls isOpen (steps sub) text :=
  stalls.ahead (fun _ begins => begins.no_nextStep) fun first others => first :: others.flatten

/-- What follows the first step stalls them too. -/
theorem Halts.steps {middle : List Char} {first : Step}
    (reads : Reads (Expr.step sub) text first middle) (halts : Halts class_ (nextStep sub) middle) :
    Stalls class_ (steps sub) text :=
  halts.behind reads fun first others => first :: others.flatten

/-- Items in front of a text at which reading halts. -/
theorem Takes.halts {item : Reader α} {values : List α} {middle : List Char}
    (takes : Takes item text values middle) (halts : Halts class_ item middle)
    (begins : ∀ text first after, Reads item (dropBlanks text) first after → Begins class_ text) :
    Halts class_ item text := by
  induction takes with
  | done rest => exact halts
  | more reads _ _ ih => exact .more (begins _ _ _ reads) reads (ih halts)

/-- A step behind others begins with a slash. -/
theorem begins_of_nextStep {taken : List Step} (reads : Reads (nextStep sub) (dropBlanks text) taken rest) :
    Begins goesOn text := by
  rcases reads with ⟨left, given, _⟩
  rcases spelled : dropBlanks text with _ | ⟨c, others⟩
  · rw [spelled] at given
    cases given
  · refine ⟨c, others, spelled, ?_⟩
    by_contra outside
    have apart : c ≠ '/' := by
      rintro rfl
      exact outside rfl
    have leaves : Leaves (· == '/') (c :: others) := leaves_cons (beq_eq_false_iff_ne.mpr apart)
    have refused : separator (c :: others) = none := by
      rw [separator, orElse_of_none (bind_of_none (token_of_leaves leaves rfl)),
        bind_of_none (token_of_leaves leaves rfl)]
    rw [spelled, Expr.nextStep, bind_of_none refused] at given
    cases given

/-- A path stalls where its steps do. -/
theorem Stalls.path (unslashed : Leaves (· == '/') text) (steppy : primary sub text = none)
    (stalls : Stalls class_ (Expr.steps sub) text) : Stalls class_ (path sub) text := by
  have unfiltered : filterPath sub text = none := by
    rw [filterPath, bind_of_none]
    rw [filtered, bind_of_none steppy]
  intro value left given
  rw [Expr.path, orElse_of_none (rootedPath_of_leaves unslashed), orElse_of_none unfiltered,
    relativePath] at given
  rcases exists_of_bind given with ⟨taken, rest, found, shaped⟩
  have begins := stalls taken rest found
  split at shaped
  · split at shaped <;> (cases shaped; exact begins)
  · cases shaped
    exact begins

/-- Behind two slashes a path stalls where its steps do, or else at the second slash. -/
theorem Stalls.path_of_slashes (solid : Leaves isBlank text)
    (stalls : Stalls goesOn (Expr.steps sub) text) :
    Stalls goesOn (Expr.path sub) ('/' :: '/' :: text) := by
  have slashes : token "//" ('/' :: '/' :: text) = some ((), text) := rfl
  have slash : token "/" ('/' :: '/' :: text) = some ((), '/' :: text) := rfl
  have nothing : Expr.steps sub ('/' :: text) = none := by
    have test : axisAndTest ('/' :: text) = none := rfl
    have dots : dotStep ('/' :: text) = none := rfl
    rw [Expr.steps, bind_of_none]
    rw [step, orElse_of_none dots, bind_of_none test]
  intro value left given
  rw [Expr.path] at given
  rcases found : Expr.steps sub text with _ | ⟨taken, rest⟩
  · have rooted : rootedPath sub ('/' :: '/' :: text) = some (.rootPath [], '/' :: text) := by
      rw [rootedPath, orElse_of_none]
      · rw [bind_of_some slash, bind_of_some (blanks_apply _), dropBlanks_of_leaves (leaves_cons rfl),
          bind_of_some (maybe_of_none nothing)]
        rfl
      · rw [bind_of_some slashes, bind_of_some (blanks_apply _), dropBlanks_of_leaves solid,
          bind_of_none found]
    rw [orElse_of_some rooted] at given
    cases given
    exact .cons rfl rfl
  · have rooted : rootedPath sub ('/' :: '/' :: text) =
        some (.rootPath (.descendantOrSelf :: taken), rest) := by
      rw [rootedPath]
      apply orElse_of_some
      rw [bind_of_some slashes, bind_of_some (blanks_apply _), dropBlanks_of_leaves solid,
        bind_of_some found]
      rfl
    rw [orElse_of_some rooted] at given
    cases given
    exact stalls taken _ found

/-- A text that unions stall at is refused. -/
theorem parse?_of_stalls {source : String} (unsigned : Unsigned source.toList)
    (stalls : Stalls isStuck (unionLevel (exprUpTo source.toList.length)) source.toList) :
    parse? source = none := by
  have above : 1 ≤ 7 := by decide
  have whole : Stalls isStuck (orLevel (exprUpTo source.toList.length)) source.toList :=
    Stalls.climb above (Nat.le_refl 7)
      (fun impossible => absurd impossible Nat.one_ne_zero) (stalls.unary unsigned).1
      fun between least _ begins => begins.no_operator (.inr (by omega))
  have read : expr source.toList = orLevel (exprUpTo source.toList.length) source.toList := rfl
  rw [parse?, whole?, bind_assoc, bind_of_some (blanks_apply _), dropBlanks_of_leaves unsigned.1,
    bind_assoc, bind_apply, read]
  rcases found : orLevel (exprUpTo source.toList.length) source.toList with _ | ⟨value, rest⟩
  · rfl
  · rcases whole value rest found with ⟨c, others, spelled, _⟩
    rw [Option.bind_some, bind_assoc, bind_of_some (blanks_apply _), spelled]
    rfl

end NodeQuery.Expr

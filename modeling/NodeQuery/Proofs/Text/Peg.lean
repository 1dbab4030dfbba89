import NodeQuery.Proofs.Text.Reader
import NodeQuery.Text.Peg

/-!
# Readers for grammars

A grammar makes one thing of a text at most.  A reader reflects a body if it refuses the texts that the
body does not match and takes what the body takes of the others; what it reads is related to the trees.
Readers reflect bodies that are put together the way they are put together themselves.
-/

namespace NodeQuery.Text.Grammar

open Reader

variable {ρ : Type} {grammar : Grammar ρ} {whole : List Char} {atomicity : Atomicity}
variable {peg other : Peg ρ} {text : List Char}

/-- A body makes one thing of a text at most. -/
theorem Derives.unique {first second : Outcome ρ} (left : grammar.Derives whole atomicity peg text first)
    (right : grammar.Derives whole atomicity peg text second) : first = second := by
  induction left generalizing second with
  | start | startNot | finish | finishNot | text | textNot | character | characterNot =>
      cases right <;> simp_all
  | rule taken inside ih =>
      cases right with
      | rule takenToo insideToo =>
          obtain ⟨rfl, rfl⟩ := Prod.mk.inj (Option.some.inj (ih insideToo))
          rw [List.append_cancel_right (taken.symm.trans takenToo)]
      | ruleNot insideToo => cases ih insideToo
  | ruleNot _ ih => cases right <;> grind
  | seq _ _ frontIh backIh => cases right <;> grind
  | seqNotFirst _ frontIh => cases right <;> grind
  | seqNotSecond _ _ frontIh backIh => cases right <;> grind
  | choiceFirst _ ih => cases right <;> grind
  | choiceSecond _ _ refusedIh ih => cases right <;> grind
  | optional _ ih => cases right <;> grind
  | optionalNone _ ih => cases right <;> grind
  | many _ _ firstIh laterIh => cases right <;> grind
  | manyNone _ ih => cases right <;> grind
  | more _ _ nextIh laterIh => cases right <;> grind
  | moreNone _ ih => cases right <;> grind
  | absent _ ih => cases right <;> grind
  | absentNot _ ih => cases right <;> grind

/-!
## Readers that reflect bodies

What is read is related to the trees by a parameter, so that one notion serves all grammars.
-/

variable {α β : Type}

/-- What a reader makes of a body: a relation between what is read, the text it was read from, and the
trees. -/
abbrev Meaning (ρ α : Type) := α → List Char → List (ParseTree ρ) → Prop

/-- On texts shorter than a bound a reader takes what a body takes, and what it reads means the trees. -/
structure Reflects (grammar : Grammar ρ) (whole : List Char) (bound : Nat) (atomicity : Atomicity)
    (peg : Peg ρ) (reader : Reader α) (meaning : Meaning ρ α) : Prop where
  refuses : ∀ text, text.length < bound → reader text = none →
    grammar.Derives whole atomicity peg text none
  takes : ∀ text value rest, text.length < bound → reader text = some (value, rest) →
    ∃ used trees, text = used ++ rest ∧
      grammar.Derives whole atomicity peg text (some (trees, rest)) ∧ meaning value used trees

variable {bound : Nat} {reader : Reader α} {meaning : Meaning ρ α}

theorem Reflects.weaken {weaker : Meaning ρ α} {lower : Nat}
    (reflects : Reflects grammar whole bound atomicity peg reader meaning)
    (implies : ∀ value used trees, meaning value used trees → weaker value used trees)
    (le : lower ≤ bound) : Reflects grammar whole lower atomicity peg reader weaker where
  refuses text short refused := reflects.refuses text (Nat.lt_of_lt_of_le short le) refused
  takes text value rest short given := by
    rcases reflects.takes text value rest (Nat.lt_of_lt_of_le short le) given with
      ⟨used, trees, taken, derives, means⟩
    exact ⟨used, trees, taken, derives, implies value used trees means⟩

theorem Reflects.mono {weaker : Meaning ρ α}
    (reflects : Reflects grammar whole bound atomicity peg reader meaning)
    (implies : ∀ value used trees, meaning value used trees → weaker value used trees) :
    Reflects grammar whole bound atomicity peg reader weaker :=
  reflects.weaken implies (Nat.le_refl bound)

/-- What is read is put in another form, which what it means has to allow. -/
theorem Reflects.finish {next : α → Reader β} {formed : Meaning ρ β}
    (reflects : Reflects grammar whole bound atomicity peg reader meaning)
    (ends : ∀ value used trees, meaning value used trees →
      ∃ last, next value = pure last ∧ formed last used trees) :
    Reflects grammar whole bound atomicity peg (reader >>= next) formed where
  refuses text short refused := by
    cases read : reader text with
    | none => exact reflects.refuses text short read
    | some taken =>
        rcases reflects.takes text taken.1 taken.2 short read with ⟨used, trees, _, _, means⟩
        rcases ends taken.1 used trees means with ⟨last, same, _⟩
        rw [bind_of_some read, same] at refused
        cases refused
  takes text value rest short given := by
    cases read : reader text with
    | none =>
        rw [bind_of_none read] at given
        cases given
    | some taken =>
        rcases reflects.takes text taken.1 taken.2 short read with ⟨used, trees, split, derives, means⟩
        rcases ends taken.1 used trees means with ⟨last, same, holds⟩
        rw [bind_of_some read, same] at given
        cases given
        exact ⟨used, trees, split, derives, holds⟩

theorem Reflects.map {form : α → β} {formed : Meaning ρ β}
    (reflects : Reflects grammar whole bound atomicity peg reader meaning)
    (implies : ∀ value used trees, meaning value used trees → formed (form value) used trees) :
    Reflects grammar whole bound atomicity peg (do let value ← reader; pure (form value)) formed :=
  reflects.finish fun value used trees means => ⟨form value, rfl, implies value used trees means⟩

theorem reflects_token (expected : String) :
    Reflects grammar whole bound atomicity (.text expected) (token expected)
      (fun _ used trees => used = expected.toList ∧ trees = []) where
  refuses text _ refused := by
    apply Derives.textNot
    intro rest same
    rw [same, token_append] at refused
    cases refused
  takes text value rest _ given := by
    unfold token at given
    split at given
    · rename_i front
      rcases List.isPrefixOf_iff_prefix.mp front with ⟨left, same⟩
      have behind : text.drop expected.length = left := by
        rw [← same, ← String.length_toList, List.drop_left]
      cases given
      rw [behind]
      exact ⟨expected.toList, [], same.symm, .text same.symm, rfl, rfl⟩
    · cases given

theorem reflects_finish :
    Reflects grammar whole bound atomicity .finish Reader.finish
      (fun _ used trees => used = [] ∧ trees = []) where
  refuses text _ refused := by
    cases text with
    | nil => cases refused
    | cons c rest => exact .finishNot (List.cons_ne_nil c rest)
  takes text _ rest _ given := by
    cases text with
    | nil =>
        cases given
        exact ⟨[], [], rfl, .finish, rfl, rfl⟩
    | cons c left => cases given

/-- A token that is not empty takes something. -/
theorem token_filled {expected : String} (some_ : expected.toList ≠ []) (_ : Unit)
    (used : List Char) (trees : List (ParseTree ρ)) (means : used = expected.toList ∧ trees = []) :
    used ≠ [] := by
  rw [means.1]
  exact some_

/-- Nothing is skipped between parts. -/
def Tight (grammar : Grammar ρ) (atomicity : Atomicity) : Prop :=
  ∀ text, grammar.skip atomicity text = text

/-- Nothing is skipped inside an atomic rule. -/
theorem tight_of_ne (grammar : Grammar ρ) (sides : atomicity ≠ .spaced) : grammar.Tight atomicity := by
  intro text
  cases atomicity with
  | spaced => exact absurd rfl sides
  | compound => rfl
  | atomic => rfl

/-- Nothing is skipped anywhere if no character is a blank. -/
theorem tight_of_unblank (none : ∀ c, grammar.isBlank c = false) (atomicity : Atomicity) :
    grammar.Tight atomicity := by
  intro text
  cases atomicity with
  | spaced =>
      cases text with
      | nil => rfl
      | cons c rest => exact List.dropWhile_cons_of_neg (by rw [none]; exact Bool.false_ne_true)
  | compound => rfl
  | atomic => rfl

/-- What is skipped stands in front of what is left. -/
theorem exists_gap (grammar : Grammar ρ) (atomicity : Atomicity) (text : List Char) :
    ∃ gap, text = gap ++ grammar.skip atomicity text ∧ (grammar.Tight atomicity → gap = []) := by
  cases atomicity with
  | spaced =>
      have parted := @List.takeWhile_append_dropWhile _ grammar.isBlank text
      refine ⟨text.takeWhile grammar.isBlank, parted.symm, fun tight => ?_⟩
      have kept : text.dropWhile grammar.isBlank = text := tight text
      rw [kept] at parted
      exact List.append_left_eq_self.mp parted
  | compound => exact ⟨[], rfl, fun _ => rfl⟩
  | atomic => exact ⟨[], rfl, fun _ => rfl⟩

section
variable {next : α → Reader β} {final : Meaning ρ β} {lower : Nat}

/-- Parts with what is skipped between them.  What the first part takes is not there any more for the
second one. -/
theorem Reflects.sequence {combined : Reader β}
    (goesOn : ∀ text value rest, reader text = some (value, rest) →
      combined text = next value (grammar.skip atomicity rest))
    (stops : ∀ text, reader text = none → combined text = none)
    (front : Reflects grammar whole bound atomicity peg reader meaning)
    (shorter : ∀ value used trees, meaning value used trees → bound ≤ lower + used.length)
    (back : ∀ value used trees gap, meaning value used trees → (grammar.Tight atomicity → gap = []) →
      Reflects grammar whole lower atomicity other (next value)
        fun last behind others => final last (used ++ gap ++ behind) (trees ++ others)) :
    Reflects grammar whole bound atomicity (.seq peg other) combined final := by
  constructor
  · intro text short refused
    cases read : reader text with
    | none => exact .seqNotFirst (front.refuses text short read)
    | some taken =>
        rcases front.takes text taken.1 taken.2 short read with ⟨used, trees, same, derives, means⟩
        rcases grammar.exists_gap atomicity taken.2 with ⟨gap, parted, tight⟩
        have enough := shorter taken.1 used trees means
        have fits : (grammar.skip atomicity taken.2).length < lower := by
          have lengths := congrArg List.length (same.trans (congrArg (used ++ ·) parted))
          simp only [List.length_append] at lengths
          omega
        rw [goesOn text taken.1 taken.2 read] at refused
        exact .seqNotSecond derives ((back taken.1 used trees gap means tight).refuses _ fits refused)
  · intro text last rest short given
    cases read : reader text with
    | none =>
        rw [stops text read] at given
        cases given
    | some taken =>
        rcases front.takes text taken.1 taken.2 short read with ⟨used, trees, same, derives, means⟩
        rcases grammar.exists_gap atomicity taken.2 with ⟨gap, parted, tight⟩
        have enough := shorter taken.1 used trees means
        have fits : (grammar.skip atomicity taken.2).length < lower := by
          have lengths := congrArg List.length (same.trans (congrArg (used ++ ·) parted))
          simp only [List.length_append] at lengths
          omega
        rw [goesOn text taken.1 taken.2 read] at given
        rcases (back taken.1 used trees gap means tight).takes _ last rest fits given with
          ⟨behind, others, later, derivesLater, meansLater⟩
        refine ⟨used ++ gap ++ behind, trees ++ others, ?_, .seq derives derivesLater, meansLater⟩
        rw [same, parted, later]
        simp only [List.append_assoc]

theorem goesOn_beside (sides : grammar.Tight atomicity) (text : List Char) (value : α)
    (rest : List Char) (given : reader text = some (value, rest)) :
    (reader >>= next) text = next value (grammar.skip atomicity rest) := by
  rw [bind_of_some given, sides]

/-- Parts side by side. -/
theorem Reflects.tight (sides : grammar.Tight atomicity)
    (front : Reflects grammar whole bound atomicity peg reader meaning)
    (back : ∀ value used trees, meaning value used trees →
      Reflects grammar whole bound atomicity other (next value)
        fun last behind others => final last (used ++ behind) (trees ++ others)) :
    Reflects grammar whole bound atomicity (.seq peg other) (reader >>= next) final := by
  refine front.sequence (goesOn_beside sides) (fun text refused => bind_of_none refused)
    (fun _ _ _ _ => Nat.le_add_right bound _) fun value used trees gap means none => ?_
  rw [none sides, List.append_nil]
  exact back value used trees means

/-- Parts side by side, after a first part that takes something. -/
theorem Reflects.tightAfter (sides : grammar.Tight atomicity)
    (filled : ∀ value used trees, meaning value used trees → used ≠ [])
    (front : Reflects grammar whole (bound + 1) atomicity peg reader meaning)
    (back : ∀ value used trees, meaning value used trees →
      Reflects grammar whole bound atomicity other (next value)
        fun last behind others => final last (used ++ behind) (trees ++ others)) :
    Reflects grammar whole (bound + 1) atomicity (.seq peg other) (reader >>= next) final := by
  have shorter (value : α) (used : List Char) (trees : List (ParseTree ρ))
      (means : meaning value used trees) : bound + 1 ≤ bound + used.length := by
    have positive := List.length_pos_iff.mpr (filled value used trees means)
    omega
  refine front.sequence (goesOn_beside sides) (fun text refused => bind_of_none refused) shorter
    fun value used trees gap means none => ?_
  rw [none sides, List.append_nil]
  exact back value used trees means

variable {gap : Reader Unit} (skips : ∀ text, gap text = some ((), text.dropWhile grammar.isBlank))
include skips

theorem goesOn_behind (text : List Char) (value : α) (rest : List Char)
    (given : reader text = some (value, rest)) :
    (do let value ← reader; gap; next value : Reader β) text = next value (grammar.skip .spaced rest) := by
  rw [bind_of_some given, bind_of_some (skips rest)]
  rfl

/-- Parts with blanks between them, after a first part that takes something. -/
theorem Reflects.spacedAfter (filled : ∀ value used trees, meaning value used trees → used ≠ [])
    (front : Reflects grammar whole (bound + 1) .spaced peg reader meaning)
    (back : ∀ value used trees gap, meaning value used trees →
      Reflects grammar whole bound .spaced other (next value)
        fun last behind others => final last (used ++ gap ++ behind) (trees ++ others)) :
    Reflects grammar whole (bound + 1) .spaced (.seq peg other)
      (do let value ← reader; gap; next value) final := by
  refine front.sequence (goesOn_behind skips) (fun text refused => bind_of_none refused)
    (fun value used trees means => ?_) fun value used trees gap means _ => back value used trees gap means
  have positive := List.length_pos_iff.mpr (filled value used trees means)
  omega

/-- Parts with blanks between them. -/
theorem Reflects.spaced (front : Reflects grammar whole bound .spaced peg reader meaning)
    (back : ∀ value used trees gap, meaning value used trees →
      Reflects grammar whole bound .spaced other (next value)
        fun last behind others => final last (used ++ gap ++ behind) (trees ++ others)) :
    Reflects grammar whole bound .spaced (.seq peg other)
      (do let value ← reader; gap; next value) final := by
  exact front.sequence (goesOn_behind skips) (fun text refused => bind_of_none refused)
    (fun _ _ _ _ => Nat.le_add_right bound _) fun value used trees gap means _ =>
      back value used trees gap means

end

theorem Reflects.choice {second : Reader α}
    (left : Reflects grammar whole bound atomicity peg reader meaning)
    (right : Reflects grammar whole bound atomicity other second meaning) :
    Reflects grammar whole bound atomicity (.choice peg other) (reader <|> second) meaning where
  refuses text short refused := by
    rw [orElse_apply] at refused
    rcases Option.or_eq_none_iff.mp refused with ⟨first, last⟩
    exact .choiceSecond (left.refuses text short first) (right.refuses text short last)
  takes text value rest short given := by
    rw [orElse_apply] at given
    cases read : reader text with
    | none =>
        rw [read, Option.none_or] at given
        rcases right.takes text value rest short given with ⟨used, trees, same, derives, means⟩
        exact ⟨used, trees, same, .choiceSecond (left.refuses text short read) derives, means⟩
    | some taken =>
        rw [read, Option.some_or] at given
        cases given
        rcases left.takes text value rest short read with ⟨used, trees, same, derives, means⟩
        exact ⟨used, trees, same, .choiceFirst derives, means⟩

/-- What stands in for an item that may be missing. -/
def Meaning.optional (meaning : Meaning ρ α) : Meaning ρ (Option α)
  | none, used, trees => used = [] ∧ trees = []
  | some value, used, trees => meaning value used trees

theorem Reflects.optional (item : Reflects grammar whole bound atomicity peg reader meaning) :
    Reflects grammar whole bound atomicity (.optional peg) (maybe reader) meaning.optional := by
  constructor
  · intro text _ refused
    cases read : reader text with
    | none =>
        rw [maybe_of_none read] at refused
        cases refused
    | some taken =>
        rw [maybe_of_some read] at refused
        cases refused
  · intro text value rest short given
    cases read : reader text with
    | none =>
        rw [maybe_of_none read] at given
        cases given
        exact ⟨[], [], rfl, .optionalNone (item.refuses text short read), rfl, rfl⟩
    | some taken =>
        rw [maybe_of_some read] at given
        cases given
        rcases item.takes text taken.1 taken.2 short read with ⟨used, trees, same, derives, means⟩
        exact ⟨used, trees, same, .optional derives, means⟩

/-- An item that may be missing, with what stands in for it then. -/
theorem Reflects.orPure {default : α} (stands : meaning default [] [])
    (item : Reflects grammar whole bound atomicity peg reader meaning) :
    Reflects grammar whole bound atomicity (.optional peg) (reader <|> pure default) meaning := by
  constructor
  · intro text _ refused
    rw [orElse_apply] at refused
    cases (Option.or_eq_none_iff.mp refused).2
  · intro text value rest short given
    cases read : reader text with
    | none =>
        rw [orElse_of_none read] at given
        cases given
        exact ⟨[], [], rfl, .optionalNone (item.refuses text short read), stands⟩
    | some taken =>
        rw [orElse_of_some read] at given
        cases given
        rcases item.takes text value rest short read with ⟨used, trees, same, derives, means⟩
        exact ⟨used, trees, same, .optional derives, means⟩

theorem Reflects.absent (item : Reflects grammar whole bound atomicity peg reader meaning) :
    Reflects grammar whole bound atomicity (.absent peg) (absent reader)
      (fun _ used trees => used = [] ∧ trees = []) where
  refuses text short refused := by
    cases read : reader text with
    | none =>
        rw [absent_of_none read] at refused
        cases refused
    | some taken =>
        rcases item.takes text taken.1 taken.2 short read with ⟨used, trees, _, derives, _⟩
        exact .absentNot derives
  takes text value rest short given := by
    rcases none_of_absent given with ⟨refused, rfl⟩
    exact ⟨[], [], rfl, .absent (item.refuses rest short refused), rfl, rfl⟩

/-- A rule is reflected by what reflects its body. -/
theorem Reflects.rule {rule : ρ}
    (inside : Reflects grammar whole bound ((grammar.kind rule).inside atomicity) (grammar.body rule)
      reader meaning) :
    Reflects grammar whole bound atomicity (.rule rule) reader
      (fun value used trees => ∃ parts, meaning value used parts ∧
        trees = grammar.shown atomicity rule used parts) where
  refuses text short refused := .ruleNot (inside.refuses text short refused)
  takes text value rest short given := by
    rcases inside.takes text value rest short given with ⟨used, parts, same, derives, means⟩
    exact ⟨used, _, same, .rule same derives, parts, means, rfl⟩

/-- Where rules show, one that is not silent shows as a node. -/
theorem Reflects.node (rule : ρ) (visible : grammar.kind rule ≠ .silent) (open_ : atomicity ≠ .atomic)
    (inside : Reflects grammar whole bound ((grammar.kind rule).inside atomicity) (grammar.body rule)
      reader meaning) :
    Reflects grammar whole bound atomicity (.rule rule) reader
      (fun value used trees => ∃ parts, meaning value used parts ∧ trees = [.node rule used parts]) := by
  apply inside.rule.mono
  rintro value used trees ⟨parts, means, rfl⟩
  exact ⟨parts, means, if_neg (not_or.mpr ⟨visible, open_⟩)⟩

/-- Items one after the other, with the trees of each. -/
inductive Meaning.Each (meaning : Meaning ρ α) : List α → List (ParseTree ρ) → Prop
  | nil : Meaning.Each meaning [] []
  | cons {value : α} {values : List α} {used : List Char} {trees others : List (ParseTree ρ)}
      (first : meaning value used trees) (later : Meaning.Each meaning values others) :
      Meaning.Each meaning (value :: values) (trees ++ others)

section
variable (filled : ∀ value used trees, meaning value used trees → used ≠ [])
include filled

/-- The items behind the first, each with what is skipped before it.  An item takes something, so that a
text has no more of them than characters. -/
theorem Reflects.later {gap : Reader Unit}
    (skips : ∀ text, gap text = some ((), grammar.skip atomicity text))
    (item : Reflects grammar whole bound atomicity peg reader meaning)
    (limit text : List Char) (short : text.length < bound) (enough : text.length ≤ limit.length) :
    ∃ values used trees rest, manyAlong (do gap; reader) limit text = some (values, rest) ∧
      text = used ++ rest ∧ grammar.Derives whole atomicity (.more peg) text (some (trees, rest)) ∧
      meaning.Each values trees := by
  have next : (do gap; reader : Reader α) text = reader (grammar.skip atomicity text) :=
    bind_of_some (skips text)
  rcases grammar.exists_gap atomicity text with ⟨skipped, split, _⟩
  have dropped : (grammar.skip atomicity text).length ≤ text.length := by
    have lengths := congrArg List.length split
    rw [List.length_append] at lengths
    omega
  have fits := Nat.lt_of_le_of_lt dropped short
  cases read : reader (grammar.skip atomicity text) with
  | none =>
      refine ⟨[], [], [], text, ?_, rfl, .moreNone (item.refuses _ fits read), .nil⟩
      cases limit with
      | nil => rfl
      | cons c limit =>
          rw [manyAlong, orElse_of_none (bind_of_none (next.trans read))]
          rfl
  | some taken =>
      rcases item.takes _ taken.1 taken.2 fits read with ⟨used, trees, same, derives, means⟩
      have positive := List.length_pos_iff.mpr (filled taken.1 used trees means)
      have lengths := congrArg List.length same
      rw [List.length_append] at lengths
      cases limit with
      | nil =>
          rw [List.length_nil] at enough
          omega
      | cons c limit =>
          rw [List.length_cons] at enough
          rcases Reflects.later skips item limit taken.2 (by omega) (by omega) with
            ⟨values, usedLater, others, rest, given, sameLater, derivesLater, each⟩
          refine ⟨taken.1 :: values, skipped ++ used ++ usedLater, trees ++ others, rest, ?_, ?_,
            .more derives derivesLater, .cons means each⟩
          · rw [manyAlong]
            apply orElse_of_some
            rw [bind_of_some (next.trans read), bind_of_some given]
            rfl
          · rw [List.append_assoc, List.append_assoc, ← sameLater, ← same]
            exact split

/-- Any number of items with blanks between them. -/
theorem Reflects.many {gap : Reader Unit}
    (skips : ∀ text, gap text = some ((), text.dropWhile grammar.isBlank))
    (item : Reflects grammar whole bound .spaced peg reader meaning) :
    Reflects grammar whole bound .spaced (.many peg)
      ((do
        let first ← reader
        let others ← Reader.many (do gap; reader)
        pure (first :: others)) <|> pure [])
      (fun values _ trees => meaning.Each values trees) := by
  constructor
  · intro text _ refused
    rw [orElse_apply] at refused
    cases (Option.or_eq_none_iff.mp refused).2
  · intro text values rest short given
    cases read : reader text with
    | none =>
        rw [orElse_of_none (bind_of_none read)] at given
        cases given
        exact ⟨[], [], rfl, .manyNone (item.refuses text short read), .nil⟩
    | some taken =>
        rcases item.takes text taken.1 taken.2 short read with ⟨used, trees, same, derives, means⟩
        have lengths := congrArg List.length same
        rw [List.length_append] at lengths
        rcases item.later filled skips taken.2 taken.2 (by omega) (Nat.le_refl _) with
          ⟨others, behind, shown, left, givenLater, sameLater, derivesLater, each⟩
        have allGiven : Reader.many (do gap; reader) taken.2 = some (others, left) := givenLater
        rw [orElse_of_some (by rw [bind_of_some read, bind_of_some allGiven]; rfl)] at given
        cases given
        exact ⟨used ++ behind, trees ++ shown, by rw [same, sameLater, List.append_assoc],
          .many derives derivesLater, .cons means each⟩

/-- Any number of items side by side. -/
theorem Reflects.manyTight (sides : grammar.Tight atomicity)
    (item : Reflects grammar whole bound atomicity peg reader meaning) :
    Reflects grammar whole bound atomicity (.many peg) (Reader.many reader)
      (fun values _ trees => meaning.Each values trees) := by
  have all (text : List Char) (short : text.length < bound) :
      ∃ values used trees rest, Reader.many reader text = some (values, rest) ∧ text = used ++ rest ∧
        grammar.Derives whole atomicity (.many peg) text (some (trees, rest)) ∧
        meaning.Each values trees := by
    have skips (text : List Char) : (pure () : Reader Unit) text = some ((), grammar.skip atomicity text) := by
      rw [sides]
      rfl
    rcases item.later filled skips text text short (Nat.le_refl _) with
      ⟨values, used, trees, rest, given, same, derives, each⟩
    rw [pure_bind] at given
    refine ⟨values, used, trees, rest, given, same, ?_, each⟩
    cases derives with
    | more next later =>
        rw [sides] at next
        exact .many next later
    | moreNone refused =>
        rw [sides] at refused
        exact .manyNone refused
  constructor
  · intro text short refused
    rcases all text short with ⟨_, _, _, _, given, _⟩
    rw [given] at refused
    cases refused
  · intro text values rest short given
    rcases all text short with ⟨others, used, trees, left, givenToo, same, derives, each⟩
    rw [givenToo] at given
    cases given
    exact ⟨used, trees, same, derives, each⟩

end

/-- A body that takes one character of a class and shows nothing. -/
structure IsClass (grammar : Grammar ρ) (whole : List Char) (atomicity : Atomicity) (peg : Peg ρ)
    (holds : Char → Bool) : Prop where
  takes : ∀ c rest, holds c = true → grammar.Derives whole atomicity peg (c :: rest) (some ([], rest))
  refuses : ∀ text, Leaves holds text → grammar.Derives whole atomicity peg text none

section
variable {holds otherHolds : Char → Bool}

theorem isClass_character : IsClass grammar whole atomicity (.character holds) holds :=
  ⟨fun _ _ inside => .character inside, fun _ outside => .characterNot outside⟩

theorem isClass_text {expected : String} {c : Char} (spelled : expected.toList = [c]) :
    IsClass grammar whole atomicity (.text expected) (· == c) where
  takes other rest same := by
    rw [beq_iff_eq.mp same]
    exact .text (by rw [spelled]; rfl)
  refuses text outside := by
    apply Derives.textNot
    intro rest same
    rw [spelled] at same
    rw [same] at outside
    exact absurd (outside c rfl) (by simp)

theorem IsClass.choice (first : IsClass grammar whole atomicity peg holds)
    (second : IsClass grammar whole atomicity other otherHolds) :
    IsClass grammar whole atomicity (.choice peg other) (fun c => holds c || otherHolds c) where
  takes c rest inside := by
    cases held : holds c with
    | true => exact .choiceFirst (first.takes c rest held)
    | false =>
        rw [held, Bool.false_or] at inside
        exact .choiceSecond (first.refuses _ (leaves_cons held)) (second.takes c rest inside)
  refuses text outside := by
    have neither : Leaves holds text ∧ Leaves otherHolds text :=
      ⟨fun c front => (Bool.or_eq_false_iff.mp (outside c front)).1,
        fun c front => (Bool.or_eq_false_iff.mp (outside c front)).2⟩
    exact .choiceSecond (first.refuses text neither.1) (second.refuses text neither.2)

theorem IsClass.silent {rule : ρ} (kind : grammar.kind rule = .silent)
    (inside : IsClass grammar whole atomicity (grammar.body rule) holds) :
    IsClass grammar whole atomicity (.rule rule) holds where
  takes c rest held := by
    have hidden : grammar.shown atomicity rule [c] [] = [] := if_pos (Or.inl kind)
    have taken : c :: rest = [c] ++ rest := rfl
    rw [← hidden]
    apply Derives.rule taken
    rw [kind]
    exact inside.takes c rest held
  refuses text outside := by
    apply Derives.ruleNot
    rw [kind]
    exact inside.refuses text outside

variable (sides : grammar.Tight atomicity)
include sides

/-- Any character but those of a class. -/
theorem IsClass.except (first : IsClass grammar whole atomicity peg holds) :
    IsClass grammar whole atomicity (.seq (.absent peg) (.character fun _ => true)) (fun c => !holds c) where
  takes c rest outside := by
    have refused := first.refuses (c :: rest) (leaves_cons (by simpa using outside))
    refine .seq (.absent refused) ?_
    rw [sides]
    exact .character rfl
  refuses text inside := by
    cases text with
    | nil =>
        refine .seqNotSecond (.absent (first.refuses [] (leaves_nil holds))) ?_
        rw [sides]
        exact .characterNot (leaves_nil _)
    | cons c rest =>
        have held : holds c = true := by simpa using inside c rfl
        exact .seqNotFirst (.absentNot (first.takes c rest held))

/-- All characters of a class that there are. -/
theorem IsClass.derives_many (item : IsClass grammar whole atomicity peg holds) (text : List Char) :
    grammar.Derives whole atomicity (.many peg) text (some ([], text.dropWhile holds)) := by
  have later (text : List Char) :
      grammar.Derives whole atomicity (.more peg) text (some ([], text.dropWhile holds)) := by
    induction text with
    | nil =>
        apply Derives.moreNone
        rw [sides]
        exact item.refuses [] (leaves_nil holds)
    | cons c rest ih =>
        cases held : holds c with
        | true =>
            rw [List.dropWhile_cons_of_pos held]
            have next := item.takes c rest held
            rw [← sides (c :: rest)] at next
            exact .more next ih
        | false =>
            rw [List.dropWhile_cons_of_neg (Bool.eq_false_iff.mp held)]
            apply Derives.moreNone
            rw [sides]
            exact item.refuses (c :: rest) (leaves_cons held)
  cases text with
  | nil => exact .manyNone (item.refuses [] (leaves_nil holds))
  | cons c rest =>
      cases held : holds c with
      | true =>
          rw [List.dropWhile_cons_of_pos held]
          exact .many (item.takes c rest held) (later rest)
      | false =>
          rw [List.dropWhile_cons_of_neg (Bool.eq_false_iff.mp held)]
          exact .manyNone (item.refuses (c :: rest) (leaves_cons held))

theorem IsClass.run (item : IsClass grammar whole atomicity peg holds) :
    Reflects grammar whole bound atomicity (.many peg) (Reader.run holds)
      (fun value used trees => value = used ∧ (∀ c ∈ used, holds c = true) ∧ trees = []) where
  refuses text _ refused := by cases refused
  takes text value rest _ given := by
    cases given
    exact ⟨text.takeWhile holds, [], List.takeWhile_append_dropWhile.symm,
      item.derives_many sides text, rfl, fun _ member => List.mem_takeWhile_imp member, rfl⟩

theorem IsClass.run1 (item : IsClass grammar whole atomicity peg holds) :
    Reflects grammar whole bound atomicity (.seq peg (.many peg)) (Reader.run1 holds)
      (fun value used trees =>
        value = used ∧ used ≠ [] ∧ (∀ c ∈ used, holds c = true) ∧ trees = []) where
  refuses text _ refused := by
    refine .seqNotFirst (item.refuses text fun c front => Bool.eq_false_iff.mpr fun held => ?_)
    cases text with
    | nil => cases front
    | cons other rest =>
        cases front
        rw [Reader.run1, bind_of_some (run_cons held rest)] at refused
        cases refused
  takes text value rest _ given := by
    have post := gives_run1 holds text value rest given
    cases text with
    | nil =>
        rw [run1_of_leaves (leaves_nil holds)] at given
        cases given
    | cons c left =>
        cases held : holds c with
        | false =>
            rw [run1_of_leaves (leaves_cons held)] at given
            cases given
        | true =>
            have later : grammar.Derives whole atomicity (.many peg) (grammar.skip atomicity left)
                (some ([], left.dropWhile holds)) := by
              rw [sides]
              exact item.derives_many sides left
            rw [Reader.run1, bind_of_some (run_cons held left)] at given
            cases given
            refine ⟨c :: left.takeWhile holds, [], ?_, .seq (item.takes c left held) later, rfl,
              post.1, post.2, rfl⟩
            rw [List.cons_append, List.takeWhile_append_dropWhile]

/-- As many characters of a class as there are, the first of them of a narrower class. -/
theorem IsClass.front {form : List Char → β} (first : IsClass grammar whole atomicity peg holds)
    (item : IsClass grammar whole atomicity other otherHolds)
    (wider : ∀ c, holds c = true → otherHolds c = true) :
    Reflects grammar whole bound atomicity (.seq peg (.many other))
      (do
        let taken ← Reader.run otherHolds
        guard (taken.head?.any holds)
        pure (form taken))
      (fun value used trees => value = form used ∧ used ≠ [] ∧ trees = []) := by
  have taken (text : List Char) : Reader.run otherHolds text =
      some (text.takeWhile otherHolds, text.dropWhile otherHolds) := rfl
  constructor
  · intro text _ refused
    refine .seqNotFirst (first.refuses text fun c front => Bool.eq_false_iff.mpr fun starts => ?_)
    cases text with
    | nil => cases front
    | cons d rest =>
        cases front
        rw [bind_of_some (taken _), List.takeWhile_cons_of_pos (wider c starts), List.head?_cons,
          Option.any_some, bind_apply, guard_apply, if_pos starts] at refused
        cases refused
  · intro text value rest _ given
    rw [bind_of_some (taken text), bind_apply, guard_apply] at given
    split at given
    · cases text with
      | nil =>
          rename_i front
          cases front
      | cons c left =>
          rename_i front
          cases inside : otherHolds c with
          | false =>
              rw [List.takeWhile_cons_of_neg (Bool.eq_false_iff.mp inside)] at front
              cases front
          | true =>
              rw [List.takeWhile_cons_of_pos inside] at front given
              rw [List.dropWhile_cons_of_pos inside] at given
              cases given
              have later : grammar.Derives whole atomicity (.many other) (grammar.skip atomicity left)
                  (some ([], left.dropWhile otherHolds)) := by
                rw [sides]
                exact item.derives_many sides left
              refine ⟨c :: left.takeWhile otherHolds, [], ?_, .seq (first.takes c left front) later,
                rfl, List.cons_ne_nil _ _, rfl⟩
              rw [List.cons_append, List.takeWhile_append_dropWhile]
    · cases given

end

/-- A text between quotes, as a rule of its own inside the quotes. -/
theorem reflects_between {rule : ρ} {quote : Char} {spelled : String} (same : quote.toString = spelled)
    (kind : grammar.kind rule = .atomic)
    (body : grammar.body rule = .many (.seq (.absent (.text spelled)) (.character fun _ => true))) :
    Reflects grammar whole bound .compound (.seq (.text spelled) (.seq (.rule rule) (.text spelled)))
      (do
        token quote.toString
        let content ← Reader.run (· != quote)
        token quote.toString
        pure (String.ofList content))
      (fun content used trees =>
        used = quote :: (content.toList ++ [quote]) ∧ trees = [.node rule content.toList []]) := by
  have sides : grammar.Tight .atomic := tight_of_ne grammar (by decide)
  have compound : grammar.Tight .compound := tight_of_ne grammar (by decide)
  have single : spelled.toList = [quote] := by rw [← same, Char.toString, String.toList_singleton]
  have inside : Reflects grammar whole bound ((grammar.kind rule).inside .compound) (grammar.body rule)
      (Reader.run (· != quote)) (fun content used trees => content = used ∧ trees = []) := by
    rw [kind, body]
    exact (((isClass_text single).except sides).run sides).mono fun _ _ _ means => ⟨means.1, means.2.2⟩
  have inner : Reflects grammar whole bound .compound (.rule rule) (Reader.run (· != quote)) _ :=
    Reflects.node rule (by rw [kind]; nofun) (by decide) inside
  rw [same]
  refine Reflects.tight compound (reflects_token spelled) ?_
  rintro _ _ _ ⟨rfl, rfl⟩
  refine Reflects.tight compound inner ?_
  rintro content _ _ ⟨_, ⟨rfl, rfl⟩, rfl⟩
  refine (reflects_token spelled).map ?_
  rintro _ _ _ ⟨rfl, rfl⟩
  rw [String.toList_ofList, single]
  exact ⟨rfl, rfl⟩

/-- A choice among words takes a word that the text begins with, or refuses the text. -/
theorem derives_words (first : String) (others : List String) (text : List Char) :
    (∃ word ∈ first :: others, ∃ rest, text = word.toList ++ rest ∧
      grammar.Derives whole atomicity (Peg.words first others) text (some ([], rest))) ∨
    grammar.Derives whole atomicity (Peg.words first others) text none := by
  have front (word : String) : (∃ rest, text = word.toList ++ rest) ∨
      ∀ rest, text ≠ word.toList ++ rest := by
    by_cases begins : ∃ rest, text = word.toList ++ rest
    · exact Or.inl begins
    · exact Or.inr fun rest same => begins ⟨rest, same⟩
  induction others generalizing first with
  | nil =>
      rcases front first with ⟨rest, begins⟩ | differs
      · exact Or.inl ⟨first, List.mem_cons_self, rest, begins, .text begins⟩
      · exact Or.inr (.textNot differs)
  | cons second others ih =>
      rcases front first with ⟨rest, begins⟩ | differs
      · exact Or.inl ⟨first, List.mem_cons_self, rest, begins, .choiceFirst (.text begins)⟩
      · rcases ih second with ⟨word, among, rest, begins, derives⟩ | refused
        · exact Or.inl ⟨word, List.mem_cons_of_mem _ among, rest, begins,
            .choiceSecond (.textNot differs) derives⟩
        · exact Or.inr (.choiceSecond (.textNot differs) refused)

section
variable {inName : Char → Bool}

/-- The word that the front of a text is made of is the one taken, if no word is written before one that
goes on where it ends. -/
theorem derives_words_of_front {first : String} {others : List String}
    (inside : ∀ word ∈ first :: others, ∀ c ∈ word.toList, inName c = true)
    (apart : (first :: others).Pairwise fun word later => ¬ word.toList <+: later.toList)
    {word : String} (among : word ∈ first :: others) {text : List Char}
    (front : text.takeWhile inName = word.toList) :
    grammar.Derives whole atomicity (Peg.words first others) text
      (some ([], text.dropWhile inName)) := by
  have split : text = word.toList ++ text.dropWhile inName := by
    rw [← front, List.takeWhile_append_dropWhile]
  induction others generalizing first with
  | nil =>
      rw [List.mem_singleton] at among
      rw [← among]
      exact .text split
  | cons second others ih =>
      rcases List.pairwise_cons.mp apart with ⟨before, rest⟩
      rcases List.mem_cons.mp among with same | later
      · rw [← same]
        exact .choiceFirst (.text split)
      · refine .choiceSecond (.textNot fun behind begins => ?_)
          (ih (fun word member => inside word (List.mem_cons_of_mem _ member)) rest later)
        rw [begins, List.takeWhile_append_of_pos (inside first List.mem_cons_self)] at front
        exact before word later ⟨_, front⟩

/-- A word that no more characters of names follow. -/
theorem reflects_words {reader : Reader α} {reads : α → List Char → Prop} {first : String}
    {others : List String} (sides : grammar.Tight atomicity)
    (nameChar : IsClass grammar whole atomicity peg inName)
    (inside : ∀ word ∈ first :: others, ∀ c ∈ word.toList, inName c = true)
    (apart : (first :: others).Pairwise fun word later => ¬ word.toList <+: later.toList)
    (declines : ∀ text, reader text = none →
      ∀ word ∈ first :: others, text.takeWhile inName ≠ word.toList)
    (accepts : ∀ text value rest, reader text = some (value, rest) →
      (∃ word ∈ first :: others, text.takeWhile inName = word.toList) ∧
        rest = text.dropWhile inName ∧ reads value (text.takeWhile inName)) :
    Reflects grammar whole bound atomicity (.seq (Peg.words first others) (.absent peg)) reader
      (fun value used trees => reads value used ∧ trees = []) where
  refuses text _ refused := by
    rcases derives_words first others text with ⟨word, among, rest, begins, derives⟩ | none
    · have goesOn : ∃ c behind, rest = c :: behind ∧ inName c = true := by
        by_contra ends
        have leaves : Leaves inName rest := by
          intro c front
          cases rest with
          | nil => cases front
          | cons other behind =>
              cases front
              exact Bool.eq_false_iff.mpr fun held => ends ⟨c, behind, rfl, held⟩
        have taken := (takeWhile_append_of_leaves (inside word among) leaves).1
        rw [← begins] at taken
        exact declines text refused word among taken
      rcases goesOn with ⟨c, behind, rfl, held⟩
      refine .seqNotSecond derives ?_
      rw [sides]
      exact .absentNot (nameChar.takes c behind held)
    · exact .seqNotFirst none
  takes text value rest _ given := by
    rcases accepts text value rest given with ⟨⟨word, among, front⟩, rfl, held⟩
    refine ⟨text.takeWhile inName, [], List.takeWhile_append_dropWhile.symm, ?_, held, rfl⟩
    refine .seq (derives_words_of_front inside apart among front) ?_
    rw [sides]
    exact .absent (nameChar.refuses _ (leaves_dropWhile inName text))

end

end NodeQuery.Text.Grammar

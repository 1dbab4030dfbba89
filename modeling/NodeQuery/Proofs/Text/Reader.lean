import Mathlib.Data.List.TakeWhile
import NodeQuery.Text.Reader

/-!
# What readers take

The combinators of readers by one step, and the readers of fixed texts and of runs of characters on
texts that begin with what they are to take.  A property of what readers give, whatever the text, is
put together along the way they are put together.
-/

namespace NodeQuery.Text.Reader

variable {α β : Type}

theorem bind_apply (reader : Reader α) (next : α → Reader β) (text : List Char) :
    (reader >>= next) text = (reader text).bind fun taken => next taken.1 taken.2 := rfl

theorem orElse_apply (first second : Reader α) (text : List Char) :
    (first <|> second) text = (first text).or (second text) := by
  change (first text <|> second text) = _
  rw [Option.orElse_eq_orElse, Option.orElse_eq_or]

theorem orElse_of_some {first second : Reader α} {text : List Char} {taken : α × List Char}
    (given : first text = some taken) : (first <|> second) text = some taken := by
  rw [orElse_apply, given, Option.some_or]

theorem orElse_of_none {first second : Reader α} {text : List Char} (refused : first text = none) :
    (first <|> second) text = second text := by
  rw [orElse_apply, refused, Option.none_or]

theorem orElse_assoc (first second third : Reader α) :
    ((first <|> second) <|> third) = (first <|> second <|> third) := by
  funext text
  simp only [orElse_apply, Option.or_assoc]

theorem bind_of_some {reader : Reader α} {next : α → Reader β} {text rest : List Char} {value : α}
    (given : reader text = some (value, rest)) : (reader >>= next) text = next value rest := by
  rw [bind_apply, given, Option.bind_some]

theorem bind_of_none {reader : Reader α} {next : α → Reader β} {text : List Char}
    (refused : reader text = none) : (reader >>= next) text = none := by
  rw [bind_apply, refused, Option.bind_none]

theorem exists_of_bind {reader : Reader α} {next : α → Reader β} {text : List Char}
    {result : β × List Char} (given : (reader >>= next) text = some result) :
    ∃ value rest, reader text = some (value, rest) ∧ next value rest = some result := by
  rw [bind_apply] at given
  rcases Option.bind_eq_some_iff.mp given with ⟨taken, found, behind⟩
  exact ⟨taken.1, taken.2, found, behind⟩

theorem guard_apply (holds : Bool) (text : List Char) :
    (guard (holds = true) : Reader Unit) text = if holds then some ((), text) else none := by
  cases holds <;> rfl

theorem maybe_of_some {item : Reader α} {text rest : List Char} {value : α}
    (given : item text = some (value, rest)) : maybe item text = some (some value, rest) := by
  apply orElse_of_some
  change (item text).bind _ = _
  rw [given]
  rfl

theorem maybe_of_none {item : Reader α} {text : List Char} (refused : item text = none) :
    maybe item text = some (none, text) := by
  apply (orElse_of_none _).trans rfl
  change (item text).bind _ = _
  rw [refused]
  rfl

theorem absent_of_none {other : Reader α} {text : List Char} (refused : other text = none) :
    absent other text = some ((), text) := by
  rw [absent, refused]

theorem none_of_absent {other : Reader α} {text rest : List Char} {taken : Unit}
    (given : absent other text = some (taken, rest)) : other text = none ∧ rest = text := by
  rw [absent] at given
  split at given
  · rename_i refused
    cases given
    exact ⟨refused, rfl⟩
  · cases given

theorem token_append (expected : String) (rest : List Char) :
    token expected (expected.toList ++ rest) = some ((), rest) := by
  have front : expected.toList.isPrefixOf (expected.toList ++ rest) = true :=
    List.isPrefixOf_iff_prefix.mpr (List.prefix_append _ _)
  rw [token, if_pos front, ← String.length_toList, List.drop_left]

/-- A text whose first character, if it has one, is not of a class. -/
def Leaves (class_ : Char → Bool) (rest : List Char) : Prop :=
  ∀ c ∈ rest.head?, class_ c = false

theorem leaves_nil (class_ : Char → Bool) : Leaves class_ [] := by
  intro c impossible
  cases impossible

theorem leaves_cons {class_ : Char → Bool} {c : Char} {rest : List Char} (outside : class_ c = false) :
    Leaves class_ (c :: rest) := by
  intro other same
  cases same
  exact outside

theorem leaves_dropWhile (class_ : Char → Bool) (text : List Char) :
    Leaves class_ (text.dropWhile class_) := by
  induction text with
  | nil => exact leaves_nil class_
  | cons c text ih =>
      rw [List.dropWhile_cons]
      split
      · exact ih
      · rename_i outside
        exact leaves_cons (Bool.eq_false_iff.mpr outside)

theorem takeWhile_append_of_leaves {class_ : Char → Bool} {taken rest : List Char}
    (all : ∀ c ∈ taken, class_ c = true) (leaves : Leaves class_ rest) :
    (taken ++ rest).takeWhile class_ = taken ∧ (taken ++ rest).dropWhile class_ = rest := by
  induction taken with
  | nil =>
      cases rest with
      | nil => exact ⟨rfl, rfl⟩
      | cons c rest =>
          have outside := leaves c rfl
          simp only [List.nil_append, List.takeWhile_cons, List.dropWhile_cons, outside,
            Bool.false_eq_true, if_false, and_self]
  | cons c taken ih =>
      have inside := all c List.mem_cons_self
      rcases ih fun other member => all other (List.mem_cons_of_mem _ member) with ⟨front, back⟩
      simp only [List.cons_append, List.takeWhile_cons, List.dropWhile_cons, inside, if_true, front,
        back, and_self]

theorem run_append {class_ : Char → Bool} {taken rest : List Char}
    (all : ∀ c ∈ taken, class_ c = true) (leaves : Leaves class_ rest) :
    run class_ (taken ++ rest) = some (taken, rest) := by
  rcases takeWhile_append_of_leaves all leaves with ⟨front, back⟩
  rw [run, front, back]

theorem run_cons {class_ : Char → Bool} {c : Char} (inside : class_ c = true) (rest : List Char) :
    run class_ (c :: rest) = some (c :: rest.takeWhile class_, rest.dropWhile class_) := by
  rw [run, List.takeWhile_cons_of_pos inside, List.dropWhile_cons_of_pos inside]

theorem run1_append {class_ : Char → Bool} {taken rest : List Char} (filled : taken ≠ [])
    (all : ∀ c ∈ taken, class_ c = true) (leaves : Leaves class_ rest) :
    run1 class_ (taken ++ rest) = some (taken, rest) := by
  have holds : (!taken.isEmpty) = true := by
    cases taken with
    | nil => exact absurd rfl filled
    | cons c taken => rfl
  rw [run1, bind_of_some (run_append all leaves), bind_apply, guard_apply, if_pos holds]
  rfl

theorem run1_of_leaves {class_ : Char → Bool} {text : List Char} (leaves : Leaves class_ text) :
    run1 class_ text = none := by
  have taken : run class_ text = some ([], text) :=
    run_append (fun _ member => absurd member List.not_mem_nil) leaves
  rw [run1, bind_of_some taken]
  rfl

/-- A reader makes the same of a text with `rest` behind it. -/
def Extends (rest : List Char) (reader : Reader α) : Prop :=
  ∀ text, reader (text ++ rest) = (reader text).map fun taken => (taken.1, taken.2 ++ rest)

section
variable {rest : List Char}

theorem extends_pure (value : α) : Extends rest (pure value) := fun _ => rfl

theorem extends_guard (holds : Bool) : Extends rest (guard (holds = true)) := by
  intro text
  rw [guard_apply, guard_apply]
  cases holds <;> rfl

theorem Extends.bind {reader : Reader α} {next : α → Reader β} (first : Extends rest reader)
    (later : ∀ value, Extends rest (next value)) : Extends rest (reader >>= next) := by
  intro text
  rw [bind_apply, bind_apply, first text]
  cases reader text with
  | none => rfl
  | some taken => exact later taken.1 taken.2

theorem Extends.orElse {first second : Reader α} (left : Extends rest first)
    (right : Extends rest second) : Extends rest (first <|> second) := by
  intro text
  rw [orElse_apply, orElse_apply, left text, right text]
  cases first text <;> rfl

theorem Extends.maybe {item : Reader α} (inside : Extends rest item) : Extends rest (maybe item) :=
  (inside.bind fun value => extends_pure (some value)).orElse (extends_pure none)

/-- A run of characters ends where `rest` begins. -/
theorem extends_run {class_ : Char → Bool} (leaves : Leaves class_ rest) : Extends rest (run class_) := by
  intro text
  have ended : (text.takeWhile class_ ++ (text.dropWhile class_ ++ rest)).takeWhile class_ =
      text.takeWhile class_ ∧ (text.takeWhile class_ ++ (text.dropWhile class_ ++ rest)).dropWhile class_ =
        text.dropWhile class_ ++ rest := by
    apply takeWhile_append_of_leaves fun _ member => List.mem_takeWhile_imp member
    intro c front
    have outside := leaves_dropWhile class_ text
    cases left : text.dropWhile class_ with
    | nil =>
        rw [left] at front
        exact leaves c front
    | cons d others =>
        rw [left] at front outside
        exact outside c front
  rw [← List.append_assoc, List.takeWhile_append_dropWhile] at ended
  rw [run, ended.1, ended.2]
  rfl

theorem extends_run1 {class_ : Char → Bool} (leaves : Leaves class_ rest) : Extends rest (run1 class_) :=
  (extends_run leaves).bind fun taken => (extends_guard !taken.isEmpty).bind fun _ => extends_pure taken

/-- No part of a token begins with what `rest` begins with. -/
theorem extends_token {expected : String} (apart : ∀ c ∈ expected.toList, Leaves (· == c) rest) :
    Extends rest (token expected) := by
  intro text
  by_cases begins : expected.toList <+: text
  · rcases begins with ⟨left, rfl⟩
    rw [List.append_assoc, token_append, token_append]
    rfl
  · have goesOn : ¬ expected.toList <+: text ++ rest := by
      rintro ⟨left, same⟩
      rcases List.append_eq_append_iff.mp same with ⟨behind, rfl, _⟩ | ⟨missing, spelled, rfl⟩
      · exact begins (List.prefix_append _ behind)
      · cases missing with
        | nil => exact begins ⟨[], by rw [spelled]; simp⟩
        | cons c missing =>
            have first := apart c (by rw [spelled]; simp) c rfl
            simp at first
    unfold token
    rw [if_neg (by rwa [List.isPrefixOf_iff_prefix]), if_neg (by rwa [List.isPrefixOf_iff_prefix])]
    rfl

end

variable {post : α → Prop} {last : β → Prop}

/-- Whatever a reader takes off a text satisfies `post`. -/
def Gives (post : α → Prop) (reader : Reader α) : Prop :=
  ∀ text value rest, reader text = some (value, rest) → post value

theorem Gives.mono {weaker : α → Prop} {reader : Reader α} (gives : Gives post reader)
    (implies : ∀ value, post value → weaker value) : Gives weaker reader :=
  fun text value rest given => implies value (gives text value rest given)

theorem Gives.pure {value : α} (holds : post value) : Gives post (Pure.pure value : Reader α) := by
  intro text other rest given
  cases given
  exact holds

theorem Gives.bind {reader : Reader α} {next : α → Reader β} (first : Gives post reader)
    (rest : ∀ value, post value → Gives last (next value)) : Gives last (reader >>= next) := by
  intro text value left given
  rcases exists_of_bind given with ⟨middle, between, taken, behind⟩
  exact rest middle (first text middle between taken) between value left behind

/-- What a reader takes does not matter for what comes after it. -/
theorem Gives.after {reader : Reader α} {next : α → Reader β} (rest : ∀ value, Gives last (next value)) :
    Gives last (reader >>= next) :=
  Gives.bind (fun _ _ _ _ => trivial : Gives (fun _ => True) reader) fun value _ => rest value

theorem Gives.orElse {first second : Reader α} (left : Gives post first) (right : Gives post second) :
    Gives post (first <|> second) := by
  intro text value rest given
  rw [orElse_apply] at given
  rcases taken : first text with _ | ⟨middle, between⟩
  · rw [taken, Option.none_or] at given
    exact right text value rest given
  · rw [taken, Option.some_or] at given
    cases given
    exact left text value rest taken

theorem gives_guard (holds : Bool) : Gives (fun _ => holds = true) (guard (holds = true) : Reader Unit) := by
  intro text value rest given
  rw [guard_apply] at given
  cases holds with
  | true => rfl
  | false => cases given

theorem gives_run (class_ : Char → Bool) : Gives (fun taken => ∀ c ∈ taken, class_ c = true)
    (run class_) := by
  intro text value rest given
  cases given
  exact fun c member => List.mem_takeWhile_imp member

theorem gives_many {item : Reader α} (each : Gives post item) :
    Gives (fun values => ∀ value ∈ values, post value) (many item) := by
  have along (limit : List Char) :
      Gives (fun values => ∀ value ∈ values, post value) (manyAlong item limit) := by
    induction limit with
    | nil => exact Gives.pure fun _ member => absurd member List.not_mem_nil
    | cons c limit ih =>
        rw [manyAlong]
        apply Gives.orElse
        · refine Gives.bind each fun first firstHolds => ?_
          refine Gives.bind ih fun others othersHold => ?_
          refine Gives.pure fun value member => ?_
          rcases List.mem_cons.mp member with same | later
          · rw [same]
            exact firstHolds
          · exact othersHold value later
        · exact Gives.pure fun _ member => absurd member List.not_mem_nil
  intro text values rest given
  exact along text text values rest given

theorem gives_maybe {item : Reader α} (each : Gives post item) :
    Gives (fun value => ∀ given, value = some given → post given) (maybe item) := by
  apply Gives.orElse
  · intro text value rest given held same
    change (item text).bind _ = _ at given
    rcases taken : item text with _ | ⟨first, between⟩
    · rw [taken] at given
      cases given
    · rw [taken] at given
      cases given
      cases same
      exact each text held rest taken
  · apply Gives.pure
    intro given impossible
    cases impossible

theorem gives_run1 (class_ : Char → Bool) :
    Gives (fun taken => taken ≠ [] ∧ ∀ c ∈ taken, class_ c = true) (run1 class_) := by
  rw [run1]
  refine Gives.bind (gives_run class_) fun taken all => ?_
  refine Gives.bind (gives_guard _) fun _ filled => ?_
  refine Gives.pure ⟨?_, all⟩
  rintro rfl
  cases filled

/-- What is read as a whole text is something the reader gives. -/
theorem Gives.whole {reader : Reader α} (gives : Gives post reader) {text : String} {value : α}
    (given : whole? reader text = some value) : post value := by
  have both : Gives post (do let value ← reader; finish; Pure.pure value : Reader α) :=
    Gives.bind gives fun _ holds => Gives.after fun _ => Gives.pure holds
  rw [whole?, Option.map_eq_some_iff] at given
  rcases given with ⟨⟨other, rest⟩, taken, rfl⟩
  exact both _ _ _ taken

end NodeQuery.Text.Reader

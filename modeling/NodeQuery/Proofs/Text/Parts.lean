import Mathlib.Data.List.Infix
import NodeQuery.Text.Blank

/-!
# Parts of texts

What a text has inside, as a word, and at places counted from its front.  A word of a text is found by
looking for it between blanks in the normalized text, which has a single blank on either side of each
word.
-/

namespace NodeQuery.Text

theorem occursIn_iff {part text : List Char} : occursIn part text = true ↔ part <:+: text := by
  induction text with
  | nil => rw [occursIn, List.isEmpty_iff, List.infix_nil]
  | cons c rest ih =>
      rw [occursIn, Bool.or_eq_true, List.isPrefixOf_iff_prefix, ih, List.infix_cons_iff]

/-- Whether a word stands in a text with separators, or an end of the text, on both sides. -/
def HasWord (text word : List Char) : Prop :=
  ∃ before after, text = before ++ word ++ after ∧
    (∀ c ∈ before.getLast?, isSeparator c = true) ∧ ∀ c ∈ after.head?, isSeparator c = true

structure IsWord (word : List Char) : Prop where
  filled : word ≠ []
  unbroken : ∀ c ∈ word, isSeparator c = false

theorem wordsAfter_append {plain : List Char} (unbroken : ∀ c ∈ plain, isSeparator c = false)
    (word rest : List Char) :
    wordsAfter word (plain ++ rest) = wordsAfter (plain.reverse ++ word) rest := by
  induction plain generalizing word with
  | nil => rfl
  | cons c plain ih =>
      rcases List.forall_mem_cons.mp unbroken with ⟨solid, others⟩
      rw [List.cons_append, wordsAfter, solid, if_neg Bool.false_ne_true, ih others]
      simp

/-- A separator parts a text: the words before it and the words behind it are all its words. -/
theorem wordsAfter_append_separator {c : Char} (separator : isSeparator c = true)
    (word text rest : List Char) :
    wordsAfter word (text ++ c :: rest) = wordsAfter word text ++ words rest := by
  induction text generalizing word with
  | nil =>
      rw [List.nil_append, words]
      cases word with
      | nil => simp [wordsAfter, separator]
      | cons letter word => simp [wordsAfter, separator]
  | cons other text ih =>
      rw [List.cons_append, wordsAfter, wordsAfter, ih, ih]
      split
      · split
        · rfl
        · rfl
      · rfl

theorem words_of_isWord {word : List Char} (isWord : IsWord word) : words word = [word] := by
  have read := wordsAfter_append isWord.unbroken [] []
  rw [List.append_nil, List.append_nil] at read
  rw [words, read, wordsAfter]
  simp [isWord.filled]

theorem words_append_separator {c : Char} (separator : isSeparator c = true) (text rest : List Char) :
    words (text ++ c :: rest) = words text ++ words rest :=
  wordsAfter_append_separator separator [] text rest

theorem isWord_of_mem_wordsAfter {read text word : List Char}
    (unbroken : ∀ c ∈ read, isSeparator c = false) (member : word ∈ wordsAfter read text) :
    IsWord word := by
  have whole (filled : ¬ read.isEmpty = true) : IsWord read.reverse := by
    constructor
    · simpa using filled
    · simpa using unbroken
  induction text generalizing read with
  | nil =>
      rw [wordsAfter] at member
      split at member
      · cases member
      · rename_i filled
        rw [List.mem_singleton.mp member]
        exact whole filled
  | cons c rest ih =>
      have nothing : ∀ c ∈ ([] : List Char), isSeparator c = false := fun _ absent => by cases absent
      rw [wordsAfter] at member
      split at member
      · split at member
        · exact ih nothing member (by simp)
        · rename_i filled
          rcases List.mem_cons.mp member with same | later
          · rw [same]
            exact whole filled
          · exact ih nothing later (by simp)
      · rename_i solid
        have extended : ∀ d ∈ c :: read, isSeparator d = false :=
          List.forall_mem_cons.mpr ⟨Bool.eq_false_iff.mpr solid, unbroken⟩
        refine ih extended member fun _ => ?_
        constructor
        · simp
        · intro d inside
          exact extended d (List.mem_reverse.mp inside)

theorem hasWord_of_mem_wordsAfter {read text word : List Char} (member : word ∈ wordsAfter read text) :
    HasWord (read.reverse ++ text) word := by
  have behind {c : Char} (separator : isSeparator c = true) (read rest : List Char)
      (found : HasWord rest word) : HasWord (read.reverse ++ c :: rest) word := by
    rcases found with ⟨before, after, rfl, first, last⟩
    refine ⟨read.reverse ++ c :: before, after, by simp, ?_, last⟩
    intro d final
    cases before with
    | nil =>
        rw [List.getLast?_concat] at final
        rw [← Option.some.inj final]
        exact separator
    | cons letter before =>
        apply first
        rw [List.getLast?_append_of_ne_nil _ (List.cons_ne_nil _ _), List.getLast?_cons_cons] at final
        exact final
  induction text generalizing read with
  | nil =>
      rw [wordsAfter] at member
      split at member
      · cases member
      · rw [List.mem_singleton.mp member]
        exact ⟨[], [], by simp, by simp, by simp⟩
  | cons c rest ih =>
      rw [wordsAfter] at member
      split at member
      · rename_i separator
        split at member
        · exact behind separator read rest (ih member)
        · rcases List.mem_cons.mp member with same | later
          · rw [same]
            refine ⟨[], c :: rest, by simp, by simp, ?_⟩
            intro d head
            rw [← Option.some.inj head]
            exact separator
          · exact behind separator read rest (ih later)
      · have found := ih member
        rwa [List.reverse_cons, List.append_assoc] at found

/-- The words of a text are what stands in it between separators. -/
theorem mem_words_iff {text word : List Char} (isWord : IsWord word) :
    word ∈ words text ↔ HasWord text word := by
  constructor
  · intro member
    exact hasWord_of_mem_wordsAfter member
  · rintro ⟨before, after, rfl, first, last⟩
    have ended : word ∈ words (word ++ after) := by
      cases after with
      | nil =>
          rw [List.append_nil, words_of_isWord isWord]
          exact List.mem_singleton_self word
      | cons c after =>
          rw [words_append_separator (last c rfl), words_of_isWord isWord]
          exact List.mem_append_left _ (List.mem_singleton_self word)
    rw [List.append_assoc]
    rcases List.eq_nil_or_concat before with rfl | ⟨before, c, rfl⟩
    · exact ended
    · have separator : isSeparator c = true := first c (by simp)
      rw [List.concat_eq_append, List.append_assoc, List.singleton_append,
        words_append_separator separator]
      exact List.mem_append_right _ ended

/-- The words of a text, told without splitting it. -/
theorem mem_words {text word : List Char} : word ∈ words text ↔ IsWord word ∧ HasWord text word := by
  constructor
  · intro member
    have isWord := isWord_of_mem_wordsAfter (fun _ absent => by cases absent) member
    exact ⟨isWord, (mem_words_iff isWord).mp member⟩
  · rintro ⟨isWord, stands⟩
    exact (mem_words_iff isWord).mpr stands

theorem IsWord.lacks_blank {word : List Char} (isWord : IsWord word) : ' ' ∉ word := by
  intro member
  have solid := isWord.unbroken ' ' member
  cases solid

/-- What begins with a character that is not in the front of a text lies behind that front. -/
theorem infix_append_iff {c : Char} {part front rest : List Char} (absent : c ∉ front) :
    (c :: part) <:+: (front ++ rest) ↔ (c :: part) <:+: rest := by
  induction front with
  | nil => rfl
  | cons letter front ih =>
      rw [List.mem_cons, not_or] at absent
      rw [List.cons_append, List.infix_cons_iff, ih absent.2, List.cons_prefix_cons]
      constructor
      · rintro (⟨same, _⟩ | later)
        · exact absurd same absent.1
        · exact later
      · exact Or.inr

/-- Texts are the same up to the first occurrence of a character if one is in front of the other. -/
theorem append_cons_prefix_iff {c : Char} {first second behind rest : List Char}
    (firstLacks : c ∉ first) (secondLacks : c ∉ second) :
    first ++ c :: behind <+: second ++ c :: rest ↔ first = second ∧ behind <+: rest := by
  induction first generalizing second with
  | nil =>
      cases second with
      | nil => simp
      | cons letter second => simp [List.ne_of_not_mem_cons secondLacks]
  | cons letter first ih =>
      cases second with
      | nil => simp [(List.ne_of_not_mem_cons firstLacks).symm]
      | cons other second =>
          rw [List.mem_cons, not_or] at firstLacks secondLacks
          rw [List.cons_append, List.cons_append, List.cons_prefix_cons,
            ih firstLacks.2 secondLacks.2, List.cons.injEq, and_assoc]

def spaced (words : List (List Char)) : List Char := (words.flatMap (' ' :: ·)) ++ [' ']

theorem spaced_cons (word : List Char) (words : List (List Char)) :
    spaced (word :: words) = ' ' :: (word ++ spaced words) := by
  simp [spaced]

theorem exists_spaced (words : List (List Char)) : ∃ rest, spaced words = ' ' :: rest := by
  cases words with
  | nil => exact ⟨[], rfl⟩
  | cons word words => exact ⟨_, spaced_cons word words⟩

section
variable {part whole : List (List Char)}

theorem prefix_spaced_iff (lack : ∀ word ∈ part, ' ' ∉ word) (allLack : ∀ word ∈ whole, ' ' ∉ word) :
    spaced part <+: spaced whole ↔ part <+: whole := by
  induction part generalizing whole with
  | nil =>
      rcases exists_spaced whole with ⟨rest, spelled⟩
      rw [spelled]
      simp [spaced]
  | cons first part ih =>
      cases whole with
      | nil =>
          apply iff_of_false
          · intro short
            have length := short.length_le
            rw [spaced_cons] at length
            simp [spaced] at length
          · exact fun short => List.cons_ne_nil _ _ (List.prefix_nil.mp short)
      | cons other whole =>
          rcases List.forall_mem_cons.mp lack with ⟨firstLacks, lack⟩
          rcases List.forall_mem_cons.mp allLack with ⟨otherLacks, allLack⟩
          rcases exists_spaced part with ⟨behind, partSpelled⟩
          rcases exists_spaced whole with ⟨rest, wholeSpelled⟩
          have later := ih lack allLack
          rw [partSpelled, wholeSpelled, List.cons_prefix_cons] at later
          rw [spaced_cons, spaced_cons, List.cons_prefix_cons, partSpelled, wholeSpelled,
            append_cons_prefix_iff firstLacks otherLacks, List.cons_prefix_cons, ← later]
          simp

/-- Words between blanks stand among others between blanks where they are a run of these. -/
theorem infix_spaced_iff (filled : part ≠ []) (lack : ∀ word ∈ part, ' ' ∉ word)
    (allLack : ∀ word ∈ whole, ' ' ∉ word) : spaced part <:+: spaced whole ↔ part <:+: whole := by
  rcases List.exists_cons_of_ne_nil filled with ⟨first, others, rfl⟩
  induction whole with
  | nil =>
      apply iff_of_false
      · intro inside
        have length := inside.length_le
        rcases exists_spaced others with ⟨rest, spelled⟩
        rw [spaced_cons, spelled] at length
        simp [spaced] at length
      · exact fun inside => filled (List.infix_nil.mp inside)
  | cons word whole ih =>
      rcases List.forall_mem_cons.mp allLack with ⟨wordLacks, later⟩
      have front := prefix_spaced_iff lack allLack
      have behind := ih later
      -- The blank in front of the part stands before a word of the whole and never inside one.
      rw [spaced_cons first] at front behind ⊢
      rw [spaced_cons word] at front ⊢
      rw [List.infix_cons_iff, front, infix_append_iff wordLacks, behind, List.infix_cons_iff]

end

theorem padded_eq_spaced {words : List (List Char)} (filled : words ≠ []) :
    ' ' :: ([' '].intercalate words ++ [' ']) = spaced words := by
  induction words with
  | nil => exact absurd rfl filled
  | cons word words ih =>
      rw [spaced_cons]
      cases words with
      | nil => simp [spaced]
      | cons next words =>
          rw [List.intercalate_cons_cons, ← ih (List.cons_ne_nil _ _)]
          simp

/-- Between two blanks on their own there is nothing. -/
theorem infix_blanks_iff {part : List Char} : ' ' :: (part ++ [' ']) <:+: [' ', ' '] ↔ part = [] := by
  constructor
  · intro inside
    have length := inside.length_le
    simp only [List.length_cons, List.length_append, List.length_nil] at length
    exact List.length_eq_zero_iff.mp (by omega)
  · rintro rfl
    exact List.infix_rfl

/-- No piece of a text that is split at a character has the character in it. -/
theorem lacks_of_mem_splitOn {c : Char} {text piece : List Char} (member : piece ∈ text.splitOn c) :
    c ∉ piece := by
  rw [List.splitOn] at member
  induction text generalizing piece with
  | nil =>
      rw [List.splitOnP_nil, List.mem_singleton] at member
      rw [member]
      exact List.not_mem_nil
  | cons letter text ih =>
      rcases List.exists_cons_of_ne_nil (List.splitOn_ne_nil c text) with ⟨first, others, pieces⟩
      rw [List.splitOn] at pieces
      rw [List.splitOnP_cons_eq_if_modifyHead, pieces] at member
      rw [pieces] at ih
      split at member
      · rcases List.mem_cons.mp member with rfl | later
        · exact List.not_mem_nil
        · exact ih later
      · rename_i apart
        rcases List.mem_cons.mp member with rfl | later
        · rw [List.mem_cons, not_or]
          exact ⟨fun same => apart (beq_iff_eq.mpr same.symm), ih List.mem_cons_self⟩
        · exact ih (List.mem_cons_of_mem first later)

/-- Whether the pieces of a text between its blanks stand among the words of another as a run; a text
without words has the empty text. -/
def HasRun (text part : List Char) : Prop :=
  words text = [] ∧ part = [] ∨ part.splitOn ' ' <:+: words text

/-- A word on its own is a run exactly if it is one of the words. -/
theorem hasRun_iff_mem {text word : List Char} (isWord : IsWord word) :
    HasRun text word ↔ word ∈ words text := by
  have whole := List.splitOn_intercalate ' ' (List.forall_mem_singleton.mpr isWord.lacks_blank)
    (List.cons_ne_nil word [])
  rw [List.intercalate_singleton] at whole
  rw [HasRun, whole, List.singleton_infix_iff]
  simp [isWord.filled]

/-- What the normalized text has between two blanks are the runs of the words of the text. -/
theorem occursIn_padded_iff (part text : List Char) :
    occursIn (' ' :: (part ++ [' '])) (' ' :: (normalize text ++ [' '])) = true ↔ HasRun text part := by
  have allLack : ∀ other ∈ words text, ' ' ∉ other :=
    fun other member => (isWord_of_mem_wordsAfter (by simp) member).lacks_blank
  have pieces := List.splitOn_ne_nil ' ' part
  rw [occursIn_iff, normalize, HasRun]
  by_cases none_ : words text = []
  · rw [none_, List.intercalate_nil, List.nil_append, infix_blanks_iff, List.infix_nil]
    simp [pieces]
  · have spelled := padded_eq_spaced pieces
    rw [List.intercalate_splitOn] at spelled
    rw [spelled, padded_eq_spaced none_,
      infix_spaced_iff pieces (fun _ member => lacks_of_mem_splitOn member) allLack]
    simp [none_]

/-- The characters from a place on, where places count from `first`. -/
theorem filter_places (inside : Nat → Bool) (from_ : Nat) (text : List Char) (first : Nat)
    (reached : ∀ place, place < first + text.length → (inside place = true ↔ from_ ≤ place)) :
    ((text.zipIdx first).filter fun entry => inside entry.2).map (·.1) =
      text.drop (from_ - first) := by
  induction text generalizing first with
  | nil => simp
  | cons c rest ih =>
      have later : ∀ place, place < first + 1 + rest.length → (inside place = true ↔ from_ ≤ place) :=
        fun place bound => reached place (by simp only [List.length_cons]; omega)
      have here := reached first (by simp only [List.length_cons]; omega)
      rw [List.zipIdx_cons, List.filter_cons]
      by_cases passed : from_ ≤ first
      · have none : from_ - first = 0 := by omega
        have noneLater : from_ - (first + 1) = 0 := by omega
        rw [if_pos (here.mpr passed), List.map_cons, ih (first + 1) later, none, noneLater]
        rfl
      · have more : from_ - first = from_ - (first + 1) + 1 := by omega
        rw [if_neg (mt here.mp passed), ih (first + 1) later, more, List.drop_succ_cons]

end NodeQuery.Text

import Mathlib.Data.List.Chain
import NodeQuery.Proofs.Function.Call
import NodeQuery.Proofs.Program.Compilation

/-!
# Normalized texts

A text is normalized by writing its words with one blank between neighbours.  What is written has
the same words and no separators to spare, and it has a word between two blanks exactly if the text
has the word, whatever other words begin, end or go on with it.
-/

namespace NodeQuery

namespace Text

theorem wordsAfter_eq_filter (word text : List Char) :
    wordsAfter word text = (text.splitOnPPrepend isSeparator word).filter (!·.isEmpty) := by
  induction text generalizing word with
  | nil => cases word <;> simp [wordsAfter]
  | cons c text ih =>
      rw [wordsAfter, List.splitOnPPrepend_cons_eq_if, ih, ih, List.splitOnPPrepend_nil_right]
      split
      · cases word <;> simp
      · rfl

/-- The words of a text are the pieces it is split into at its separators, without the empty ones. -/
theorem words_eq_filter (text : List Char) :
    words text = (text.splitOnP isSeparator).filter (!·.isEmpty) :=
  wordsAfter_eq_filter [] text

theorem isWord_of_mem_words {text word : List Char} (member : word ∈ words text) : IsWord word :=
  (mem_words.mp member).1

theorem words_intercalate {words_ : List (List Char)} (isWord : ∀ word ∈ words_, IsWord word) :
    words ([' '].intercalate words_) = words_ := by
  induction words_ with
  | nil => rfl
  | cons word others ih =>
      obtain ⟨first, later⟩ := List.forall_mem_cons.mp isWord
      cases others with
      | nil => rw [List.intercalate_singleton, words_of_isWord first]
      | cons next others =>
          rw [List.intercalate_cons_cons, List.append_assoc, List.singleton_append,
            words_append_separator rfl, words_of_isWord first, ih later, List.singleton_append]

theorem words_normalize (text : List Char) : words (normalize text) = words text :=
  words_intercalate fun _ member => isWord_of_mem_words member

theorem normalize_normalize (text : List Char) : normalize (normalize text) = normalize text := by
  rw [normalize, words_normalize, normalize]

/-- A text with no separator at either end and no two of them side by side; those it has are
blanks. -/
structure IsCollapsed (text : List Char) : Prop where
  leading : ∀ c ∈ text.head?, isSeparator c = false
  trailing : ∀ c ∈ text.getLast?, isSeparator c = false
  doubled : text.IsChain fun c d => isSeparator c = false ∨ isSeparator d = false
  blank : ∀ c ∈ text, isSeparator c = true → c = ' '

theorem IsCollapsed.nil : IsCollapsed [] where
  leading := by simp
  trailing := by simp
  doubled := .nil
  blank := by simp

theorem IsWord.isCollapsed {word : List Char} (isWord : IsWord word) : IsCollapsed word where
  leading c member := isWord.unbroken c (List.mem_of_mem_head? member)
  trailing c member := isWord.unbroken c (List.mem_of_mem_getLast? member)
  doubled := by
    apply List.Pairwise.isChain
    apply List.pairwise_of_forall_mem_list
    intro c member _ _
    exact Or.inl (isWord.unbroken c member)
  blank c member separator := by
    rw [isWord.unbroken c member] at separator
    cases separator

/-- Two filled texts without separators to spare, with a blank between them. -/
theorem IsCollapsed.append {first second : List Char} (firstFilled : first ≠ [])
    (secondFilled : second ≠ []) (left : IsCollapsed first) (right : IsCollapsed second) :
    IsCollapsed (first ++ ' ' :: second) where
  leading c member := by
    rw [List.head?_append_of_ne_nil _ firstFilled] at member
    exact left.leading c member
  trailing c member := by
    rw [List.getLast?_append_of_ne_nil _ (List.cons_ne_nil _ _),
      List.getLast?_cons_of_ne_nil secondFilled] at member
    exact right.trailing c member
  doubled := by
    apply left.doubled.append
    · exact right.doubled.cons fun d head => Or.inr (right.leading d head)
    · intro c last _ _
      exact Or.inl (left.trailing c last)
  blank c member separator := by
    rcases List.mem_append.mp member with inside | inside
    · exact left.blank c inside separator
    · rcases List.mem_cons.mp inside with same | later
      · exact same
      · exact right.blank c later separator

theorem intercalate_ne_nil {word : List Char} (isWord : IsWord word) (others : List (List Char)) :
    [' '].intercalate (word :: others) ≠ [] := by
  cases others with
  | nil =>
      rw [List.intercalate_singleton]
      exact isWord.filled
  | cons next others =>
      rw [List.intercalate_cons_cons, List.append_assoc]
      exact List.append_ne_nil_of_left_ne_nil isWord.filled _

theorem isCollapsed_intercalate {words_ : List (List Char)} (isWord : ∀ word ∈ words_, IsWord word) :
    IsCollapsed ([' '].intercalate words_) := by
  induction words_ with
  | nil => exact .nil
  | cons word others ih =>
      obtain ⟨first, later⟩ := List.forall_mem_cons.mp isWord
      cases others with
      | nil =>
          rw [List.intercalate_singleton]
          exact first.isCollapsed
      | cons next others =>
          have second := (List.forall_mem_cons.mp later).1
          rw [List.intercalate_cons_cons, List.append_assoc, List.singleton_append]
          exact first.isCollapsed.append first.filled (intercalate_ne_nil second others) (ih later)

theorem isCollapsed_normalize (text : List Char) : IsCollapsed (normalize text) :=
  isCollapsed_intercalate fun _ member => isWord_of_mem_words member

end Text

namespace Expr

open Evaluation

variable {σ : Type} {forest : Forest} {context : Context σ} {focus : Focus}

def padded (text : Expr) : Expr := .call "concat" [.string " ", text, .string " "]

/-- Whether a text, normalized, has a word between blanks. -/
def hasWord (text word : Expr) : Expr :=
  .call "contains" [padded (.call "normalize-space" [text]), padded word]

theorem evalAt_padded (core : context.functions = Registry.core) (text : Expr) :
    evalAt forest context focus (padded text) =
      (do
        let value ← evalAt forest context focus text
        pure (.string (String.join [" ", value.toText forest, " "]))) := by
  simp only [padded, evalAt, evalAll, bind_assoc, pure_bind, Evaluation.call, core]
  rfl

theorem evalAt_normalized (core : context.functions = Registry.core) (text : Expr) :
    evalAt forest context focus (.call "normalize-space" [text]) =
      (do
        let value ← evalAt forest context focus text
        pure (.string (String.ofList (Text.normalize (value.toText forest).toList)))) := by
  simp only [evalAt, evalAll, bind_assoc, pure_bind, Evaluation.call, core]
  rfl

theorem toList_padded (text : String) :
    (String.join [" ", text, " "]).toList = ' ' :: (text.toList ++ [' ']) := by
  simp

theorem evalAt_hasWord (core : context.functions = Registry.core) (text word : Expr) :
    evalAt forest context focus (hasWord text word) =
      (do
        let value ← evalAt forest context focus text
        let sought ← evalAt forest context focus word
        pure (.boolean (Text.occursIn (' ' :: ((sought.toText forest).toList ++ [' ']))
          (' ' :: (Text.normalize (value.toText forest).toList ++ [' ']))))) := by
  have called (whole part : Value) : Evaluation.call forest context focus "contains" [whole, part] =
      pure (.boolean
        (Text.occursIn (part.toText forest).toList (whole.toText forest).toList)) := by
    rw [Evaluation.call, core]
    rfl
  rw [hasWord, evalAt, evalAll, evalAt_padded core, evalAt_normalized core]
  simp only [evalAll, evalAt_padded core, bind_assoc, pure_bind, called, Value.toText, toList_padded,
    String.toList_ofList]

end Expr

namespace Program

variable {σ : Type} {forest : Forest} {context : Context σ} {focus : Focus}

/-- Whatever texts two expressions give, the second text, if it is a word, stands between blanks in
the first one, normalized and put between blanks, exactly if it is one of the pieces that the first
one is split into at its separators.  Normalizing a text twice gives what normalizing it once gives: a
text with the same words, and with no separator at its ends or beside another. -/
theorem runFrom_hasWord (core : context.functions = Registry.core) {text word : Expr}
    {value sought : Value} {state middle after : σ}
    (given : runFrom forest context focus text.code 0 [] state = (.ok value, middle))
    (wordGiven : runFrom forest context focus word.code 0 [] middle = (.ok sought, after)) :
    let letters := (value.toText forest).toList
    let normal := Expr.call "normalize-space" [text]
    (Text.IsWord (sought.toText forest).toList →
      runFrom forest context focus (Expr.hasWord text word).code 0 [] state =
        (.ok (.boolean (decide ((sought.toText forest).toList ∈ letters.splitOnP Text.isSeparator))),
          after)) ∧
    runFrom forest context focus normal.code 0 [] state =
      (.ok (.string (String.ofList (Text.normalize letters))), middle) ∧
    runFrom forest context focus (Expr.call "normalize-space" [normal]).code 0 [] state =
      runFrom forest context focus normal.code 0 [] state ∧
    Text.words letters = (letters.splitOnP Text.isSeparator).filter (!·.isEmpty) ∧
    Text.words (Text.normalize letters) = Text.words letters ∧
    Text.IsCollapsed (Text.normalize letters) := by
  intro letters normal
  rw [runFrom_code_nil] at given wordGiven
  have once : Expr.evalAt forest context focus normal state =
      (.ok (.string (String.ofList (Text.normalize letters))), middle) := by
    rw [Expr.evalAt_normalized core, Evaluation.bind_apply, given]
    rfl
  simp only [runFrom_code_nil]
  refine ⟨?_, once, ?_, Text.words_eq_filter letters, Text.words_normalize letters,
    Text.isCollapsed_normalize letters⟩
  · intro isWord
    have answer : Text.occursIn (' ' :: ((sought.toText forest).toList ++ [' ']))
        (' ' :: (Text.normalize letters ++ [' '])) =
          decide ((sought.toText forest).toList ∈ letters.splitOnP Text.isSeparator) := by
      rw [Bool.eq_iff_iff, Text.occursIn_padded_iff, Text.hasRun_iff_mem isWord,
        Text.words_eq_filter, List.mem_filter, decide_eq_true_iff]
      simp [isWord.filled]
    rw [Expr.evalAt_hasWord core, Evaluation.bind_apply, given]
    simp only [Evaluation.bind_apply, wordGiven]
    rw [← answer]
    rfl
  · rw [Expr.evalAt_normalized core, Evaluation.bind_apply, once]
    simp only [Value.toText, String.toList_ofList, Text.normalize_normalize]
    rfl

/-- A word of a text beside words that begin and end with it. -/
theorem runFrom_hasWord_among :
    let context : Context Unit := {}
    let words := Expr.string "\t box-b ab\n b "
    Text.IsWord ['b'] ∧
      runFrom {} context {} (Expr.hasWord words (.string "b")).code 0 [] () =
        (.ok (.boolean true), ()) ∧
      runFrom {} context {} (Expr.hasWord words (.string "a")).code 0 [] () =
        (.ok (.boolean false), ()) := by
  intro context words
  have isWord (c : Char) (solid : Text.isSeparator c = false) : Text.IsWord [c] :=
    ⟨List.cons_ne_nil _ _, List.forall_mem_singleton.mpr solid⟩
  have core : context.functions = Registry.core := rfl
  have given : runFrom {} context {} words.code 0 [] () =
      (.ok (.string "\t box-b ab\n b "), ()) := rfl
  have wordGiven (word : String) : runFrom {} context {} (Expr.string word).code 0 [] () =
      (.ok (.string word), ()) := rfl
  have answer (word : String) := (runFrom_hasWord core given (wordGiven word)).1
  refine ⟨isWord 'b' rfl, ?_, ?_⟩
  · exact answer "b" (isWord 'b' rfl)
  · exact answer "a" (isWord 'a' rfl)

end Program

end NodeQuery

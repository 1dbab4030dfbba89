import NodeQuery.Proofs.Expr.Answer
import NodeQuery.Proofs.Text.Parts
import NodeQuery.Selector.Structure

/-!
# Calls of core functions

What a call of a core function gives once its arguments have their values.
-/

namespace NodeQuery

namespace Expr

open Evaluation

variable {σ : Type} {forest : Forest} {context : Context σ} {focus : Focus}

/-- What an argument gives is asked for its truth, whether the argument asks a handler or fails. -/
theorem evalAt_boolean (core : context.functions = Registry.core) (focus : Focus) (argument : Expr) :
    evalAt forest context focus (.call "boolean" [argument]) =
      (do
        let value ← evalAt forest context focus argument
        pure (.boolean value.toBoolean)) := by
  rw [evalAt, evalAll, bind_assoc]
  refine bind_congr fun value => ?_
  rw [evalAll, pure_bind, pure_bind, Evaluation.call, core]
  rfl

section
variable (core : context.functions = Registry.core) {argument : Expr} {value : Value}
variable (given : evalAt forest context focus argument = pure value)
include core given

theorem evalAt_not :
    evalAt forest context focus (.call "not" [argument]) = pure (.boolean !value.toBoolean) :=
  evalAt_call (evalAll_cons given evalAll_nil) (by rw [core]; rfl) rfl

theorem evalAt_stringLength :
    evalAt forest context focus (.call "string-length" [argument]) =
      pure (.number (Float.ofNat (value.toText forest).length)) :=
  evalAt_call (evalAll_cons given evalAll_nil) (by rw [core]; rfl) rfl

theorem evalAt_normalizeSpace :
    evalAt forest context focus (.call "normalize-space" [argument]) =
      pure (.string (String.ofList (Text.normalize (value.toText forest).toList))) :=
  evalAt_call (evalAll_cons given evalAll_nil) (by rw [core]; rfl) rfl

/-- The number of nodes of a set. -/
theorem evalAt_count {set : NodeSet} (isSet : value = .nodeSet set) :
    evalAt forest context focus (.call "count" [argument]) =
      pure (.number (Float.ofNat set.nodes.length)) := by
  rw [isSet] at given
  exact evalAt_call (evalAll_cons given evalAll_nil) (by rw [core]; rfl) rfl

variable {second : Expr} {other : Value}
variable (secondGiven : evalAt forest context focus second = pure other)
include secondGiven

theorem evalAt_contains :
    evalAt forest context focus (.call "contains" [argument, second]) =
      pure (.boolean (Text.occursIn (other.toText forest).toList (value.toText forest).toList)) :=
  evalAt_call (evalAll_cons given (evalAll_cons secondGiven evalAll_nil)) (by rw [core]; rfl) rfl

theorem evalAt_startsWith :
    evalAt forest context focus (.call "starts-with" [argument, second]) =
      pure (.boolean ((other.toText forest).toList.isPrefixOf (value.toText forest).toList)) :=
  evalAt_call (evalAll_cons given (evalAll_cons secondGiven evalAll_nil)) (by rw [core]; rfl) rfl

theorem evalAt_substring :
    evalAt forest context focus (.call "substring" [argument, second]) =
      pure (.string (String.ofList (Function.substring (value.toText forest).toList
        (other.toNumber forest) none))) :=
  evalAt_call (evalAll_cons given (evalAll_cons secondGiven evalAll_nil)) (by rw [core]; rfl) rfl

end

/-- The negation of an expression that answers. -/
theorem Answers.not (core : context.functions = Registry.core) {expression : Expr} {holds : Prop}
    (answers : Answers forest context focus expression holds) :
    Answers forest context focus (.call "not" [expression]) (¬ holds) := by
  rcases answers with ⟨value, given, _, truth⟩
  apply answers_boolean (evalAt_not core given)
  rw [← truth, Bool.not_eq_true', Bool.not_eq_true]

/-- The condition on a word asks for a run of words. -/
theorem answers_wordExpr (core : context.functions = Registry.core) {target : Expr} {value : Value}
    (given : evalAt forest context focus target = pure value) (word : String) :
    Answers forest context focus (Selector.wordExpr target word)
      (Text.HasRun (value.toText forest).toList word.toList) := by
  have blank : evalAt forest context focus (.string " ") = pure (.string " ") := evalAt_string " "
  have normal := evalAt_normalizeSpace core given
  have padded : evalAt forest context focus
      (.call "concat" [.string " ", .call "normalize-space" [target], .string " "]) =
        pure (.string (String.join [" ",
          String.ofList (Text.normalize (value.toText forest).toList), " "])) :=
    evalAt_call (evalAll_cons blank (evalAll_cons normal (evalAll_cons blank evalAll_nil)))
      (by rw [core]; rfl) rfl
  apply answers_boolean (evalAt_contains core padded (evalAt_string (" " ++ word ++ " ")))
  rw [← Text.occursIn_padded_iff]
  simp [Value.toText]

end Expr

end NodeQuery

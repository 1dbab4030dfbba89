import NodeQuery.Proofs.Expr.Merging
import NodeQuery.Proofs.Expr.Parentheses
import NodeQuery.Proofs.Handler.Asking

/-!
# Verdicts of handlers

A predicate that is nothing but a call of a function that is not registered is decided by the truth of
what the handler answers, be it a number.  Such a predicate may as well ask for that truth itself:
wherever it stands, among other predicates and behind whatever expression or step, the evaluation is the
same, with the same errors, the same states and the same calls.
-/

namespace NodeQuery

open Evaluation

variable {σ : Type} {forest : Forest} {context : Context σ}

namespace Expr

/-- A predicate among others may be replaced by one that makes the same test. -/
theorem keptBy_replace {predicate other : Expr}
    (same : predicate.testAt forest context = other.testAt forest context) (earlier later : List Expr)
    (nodes : List NodeId) :
    keptBy forest context (earlier ++ predicate :: later) nodes =
      keptBy forest context (earlier ++ other :: later) nodes := by
  induction earlier generalizing nodes with
  | nil => rw [List.nil_append, List.nil_append, keptBy_cons, keptBy_cons, same]
  | cons first earlier ih =>
      rw [List.cons_append, List.cons_append, keptBy_cons, keptBy_cons]
      exact bind_congr fun kept => ih kept

/-- What the handler answers counts by its truth, asked for or not. -/
theorem testAt_boolean (core : context.functions = Registry.core) {function : String}
    (custom : Registry.core.contains function = false) (arguments : List Expr) :
    (call function arguments).testAt forest context =
      (call "boolean" [call function arguments]).testAt forest context := by
  have unregistered : context.functions.contains function = false := core ▸ custom
  funext focus
  rw [testAt, testAt, evalAt_boolean core, bind_assoc]
  refine bind_congr fun value => ?_
  rw [keeps_unregistered unregistered, pure_bind]
  rfl

/-- An expression without its predicates: they stand behind another expression, or behind a step that
goes on from an expression, with more steps to come. -/
inductive Unfiltered where
  | expression (primary : Expr)
  | step (start : Expr) (axis : Axis) (test : NodeTest) (others : List Step)

def Unfiltered.fill : Unfiltered → List Expr → Expr
  | .expression primary, predicates => .filter primary predicates
  | .step start axis test others, predicates => start.andThen (.mk axis test predicates :: others)

/-- Predicates that keep the same of all nodes make the same expression. -/
theorem Unfiltered.evalAt_fill (place : Unfiltered) {predicates others : List Expr}
    (same : ∀ nodes, keptBy forest context predicates nodes = keptBy forest context others nodes)
    (focus : Focus) :
    evalAt forest context focus (place.fill predicates) =
      evalAt forest context focus (place.fill others) := by
  cases place with
  | expression primary => simp only [fill, evalAt, same]
  | step start axis test others => simp only [fill, evalAt_andThen, follow, same]

theorem Unfiltered.eval_fill (place : Unfiltered) {predicates others : List Expr}
    (same : ∀ nodes, keptBy forest context predicates nodes = keptBy forest context others nodes) :
    (place.fill predicates).eval forest context = (place.fill others).eval forest context := by
  rw [eval, eval, place.evalAt_fill same]

end Expr

section
variable (core : context.functions = Registry.core) {function : String}
variable (custom : Registry.core.contains function = false)
include core custom

/-- Wherever a predicate calls a function that is not registered, asking for the truth of the call makes
the same program. -/
theorem Program.run_boolean (arguments : List Expr) (place : Expr.Unfiltered) (earlier later : List Expr)
    (text : String) (forest : Forest) :
    run ⟨(place.fill (earlier ++ .call function arguments :: later)).code, text⟩ forest context =
      run ⟨(place.fill (earlier ++ .call "boolean" [.call function arguments] :: later)).code, text⟩
        forest context := by
  rw [run_eq_eval, run_eq_eval]
  apply place.eval_fill
  exact Expr.keptBy_replace (Expr.testAt_boolean core custom arguments) earlier later

theorem Query.evaluate_boolean {source predicate : String} {expr : Expr} {arguments : List Expr}
    (read : Expr.parse? source = some expr)
    (tested : Expr.parse? predicate = some (.call function arguments)) (forest : Forest) :
    evaluate forest ("(" ++ source ++ ")[" ++ predicate ++ "]") context =
      evaluate forest ("(" ++ source ++ ")[boolean(" ++ predicate ++ ")]") context := by
  have asked : Expr.parse? ("boolean" ++ "(" ++ predicate ++ ")") =
      some (.call "boolean" [.call function arguments]) :=
    Expr.parse?_enclosed_argument (.simple (by decide)) (by decide) tested
  have spelled : "(" ++ source ++ ")[boolean(" ++ predicate ++ ")]" =
      "(" ++ source ++ ")[" ++ ("boolean" ++ "(" ++ predicate ++ ")") ++ "]" := by
    apply String.toList_injective
    simp
  rw [spelled, evaluate_of_parse (Expr.parse?_enclosed_filter read tested),
    evaluate_of_parse (Expr.parse?_enclosed_filter read asked)]
  apply (Expr.Unfiltered.expression expr).eval_fill
  exact Expr.keptBy_replace (Expr.testAt_boolean core custom arguments) [] []

/-- A call of a function that is not registered, as a predicate behind a text in parentheses or as one of
the predicates of any expression or step, comes to the same as asking for its truth: the same value or
the same error, the same state, and the same calls of the handler. -/
theorem Query.call_predicate_eq_boolean {source predicate : String} {expr : Expr}
    {arguments : List Expr} (read : Expr.parse? source = some expr)
    (tested : Expr.parse? predicate = some (.call function arguments)) (forest : Forest) :
    (evaluate forest ("(" ++ source ++ ")[" ++ predicate ++ "]") context =
        evaluate forest ("(" ++ source ++ ")[boolean(" ++ predicate ++ ")]") context ∧
      ∀ state,
        evaluate forest ("(" ++ source ++ ")[" ++ predicate ++ "]") context.recording (state, []) =
          evaluate forest ("(" ++ source ++ ")[boolean(" ++ predicate ++ ")]") context.recording
            (state, [])) ∧
    ∀ (place : Expr.Unfiltered) (earlier later : List Expr) (text : String),
      let plain : Program :=
        ⟨(place.fill (earlier ++ .call function arguments :: later)).code, text⟩
      let asking : Program :=
        ⟨(place.fill (earlier ++ .call "boolean" [.call function arguments] :: later)).code, text⟩
      plain.run forest context = asking.run forest context ∧
        ∀ state, plain.run forest context.recording (state, []) =
          asking.run forest context.recording (state, []) := by
  have coreToo : context.recording.functions = Registry.core := core
  refine ⟨⟨evaluate_boolean core custom read tested forest, fun state => ?_⟩,
    fun place earlier later text => ⟨?_, fun state => ?_⟩⟩
  · rw [evaluate_boolean coreToo custom read tested forest]
  · exact Program.run_boolean core custom arguments place earlier later text forest
  · exact congrFun
      (Program.run_boolean coreToo custom arguments place earlier later text forest) (state, [])

end

theorem Query.call_predicate_eq_boolean_stacked :
    let forest := stackedDocument.1
    let context : Context Nat := { node := some ⟨0⟩, handler := some tallyHandler }
    (evaluate forest ("(" ++ "//t" ++ ")[" ++ "f(.)" ++ "]") context =
        evaluate forest ("(" ++ "//t" ++ ")[boolean(" ++ "f(.)" ++ ")]") context ∧
      ∀ state,
        evaluate forest ("(" ++ "//t" ++ ")[" ++ "f(.)" ++ "]") context.recording (state, []) =
          evaluate forest ("(" ++ "//t" ++ ")[boolean(" ++ "f(.)" ++ ")]") context.recording
            (state, [])) ∧
    ∀ (place : Expr.Unfiltered) (earlier later : List Expr) (text : String),
      let plain : Program := ⟨(place.fill (earlier ++ .call "f" [.focus] :: later)).code, text⟩
      let asking : Program :=
        ⟨(place.fill (earlier ++ .call "boolean" [.call "f" [.focus]] :: later)).code, text⟩
      plain.run forest context = asking.run forest context ∧
        ∀ state, plain.run forest context.recording (state, []) =
          asking.run forest context.recording (state, []) := by
  have read : Expr.parse? "//t" =
      some (.rootPath [Step.descendantOrSelf, .mk .child (.named "t") []]) := rfl
  have tested : Expr.parse? "f(.)" = some (.call "f" [.focus]) := rfl
  exact call_predicate_eq_boolean rfl (by decide) read tested stackedDocument.1

end NodeQuery

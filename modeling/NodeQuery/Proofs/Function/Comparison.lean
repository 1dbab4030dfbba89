import NodeQuery.Proofs.Function.Call
import NodeQuery.Proofs.Function.Position
import NodeQuery.Proofs.Program.Watching

/-!
# Comparing node-sets with literals

A node-set compares with a number or a string as soon as one of its nodes does, and whether one node
does is what a predicate can ask of it.  Comparing all nodes at once and asking whether any node is left
by such a predicate are the same, for every operator and whatever the texts of the nodes convert to.
-/

namespace NodeQuery

open Evaluation

variable {σ : Type} {forest : Forest} {context : Context σ}

/-- A node-set compares with a value that is no truth value as one of its nodes does. -/
theorem Comparison.holds_iff_exists (comparison : Comparison) (forest : Forest) (set : NodeSet)
    {value : Value} (plain : value.kind ≠ .boolean) :
    comparison.holds forest (.nodeSet set) value = true ↔
      ∃ id ∈ set.nodes, comparison.holds forest (.nodeSet (NodeSet.ofNodes forest [id])) value = true := by
  have alone (id : NodeId) : (NodeSet.ofNodes forest [id]).nodes = [id] :=
    NodeSet.nodes_ofNodes (List.nodup_singleton id)
  cases value with
  | boolean truth => exact absurd rfl plain
  | number amount => simp only [holds, alone, List.any_eq_true, List.mem_singleton, exists_eq_left]
  | string text => simp only [holds, alone, List.any_eq_true, List.mem_singleton, exists_eq_left]
  | nodeSet other => simp only [holds, alone, List.any_eq_true, List.mem_singleton, exists_eq_left]

namespace Expr

/-- The text of a number or of a string between quotes, the expression it is read as, and its value. -/
inductive IsLiteral : String → Expr → Value → Prop where
  | number {text : String} {amount : Float} (spelled : numeral text.toList = some (amount, [])) :
      IsLiteral text (.number amount) (.number amount)
  | string {quote : Char} (known : quote = '"' ∨ quote = '\'') {content : String}
      (unquoted : quote ∉ content.toList) :
      IsLiteral (String.ofList (quote :: (content.toList ++ [quote]))) (.string content) (.string content)

variable {text : String} {expr : Expr} {value : Value}

theorem IsLiteral.operand (literal : IsLiteral text expr value) : Operand 0 text.toList expr := by
  cases literal with
  | number spelled => exact .of_numeral spelled
  | string known unquoted =>
      rw [String.toList_ofList]
      exact .string known unquoted

theorem IsLiteral.evalAt_eq (literal : IsLiteral text expr value) (forest : Forest)
    (context : Context σ) (focus : Focus) : evalAt forest context focus expr = pure value := by
  cases literal with
  | number _ => rw [evalAt]
  | string _ _ => rw [evalAt]

theorem IsLiteral.kind_ne (literal : IsLiteral text expr value) : value.kind ≠ .boolean := by
  cases literal <;> nofun

/-- Whether the node in focus compares with a literal. -/
theorem answersAt_focus (literal : IsLiteral text expr value) (comparison : Comparison)
    (forest : Forest) (context : Context σ) (among : NodeId → Prop) :
    AnswersAt forest context among (.comparison comparison .focus expr) fun id =>
      comparison.holds forest (.nodeSet (NodeSet.ofNodes forest [id])) value = true := by
  intro id _ focus here
  have start : evalAt forest context focus .focus = pure (focusValue forest focus) := by rw [evalAt]
  have given := evalAt_comparison comparison start (literal.evalAt_eq forest context focus)
  rw [focusValue, here] at given
  exact answers_boolean given Iff.rfl

section
variable {start : Expr} {set : NodeSet} {focus : Focus} {state after : σ}
variable (literal : IsLiteral text expr value) (comparison : Comparison)
variable (given : evalAt forest context focus start state = (.ok (.nodeSet set), after))
include literal given

theorem evalAt_compared : evalAt forest context focus (.comparison comparison start expr) state =
    (.ok (.boolean (comparison.holds forest (.nodeSet set) value)), after) := by
  rw [evalAt, bind_apply, given, literal.evalAt_eq]
  rfl

/-- Whether any node is left that compares with a literal. -/
theorem evalAt_left (core : context.functions = Registry.core) :
    evalAt forest context focus
        (.call "boolean" [.filter start [.comparison comparison .focus expr]]) state =
      (.ok (.boolean (comparison.holds forest (.nodeSet set) value)), after) := by
  have answers := answersAt_focus literal comparison forest context fun _ => True
  rcases exists_keptBy (.cons answers .nil) fun id (_ : id ∈ set.nodes) => trivial with
    ⟨kept, keeps, members⟩
  have truth : (Value.nodeSet (NodeSet.inDocumentOrder forest kept)).toBoolean =
      comparison.holds forest (.nodeSet set) value := by
    rw [Bool.eq_iff_iff, comparison.holds_iff_exists forest set literal.kind_ne, Value.toBoolean,
      NodeSet.isEmpty, Bool.not_eq_true', List.isEmpty_eq_false_iff_exists_mem]
    simp only [NodeSet.mem_inDocumentOrder, members, List.forall_mem_singleton]
  rw [evalAt_boolean core, evalAt, bind_assoc, bind_apply, given]
  simp only [requireNodes, pure_bind]
  rw [keeps, pure_bind, pure_bind, truth]
  rfl

end

end Expr

namespace Query

variable {source text : String} {expr other : Expr} {value : Value} {state after : σ} {set : NodeSet}

/-- A handler that writes its calls down takes part in an evaluation as it does without. -/
theorem exists_recording {result : Value} (read : Expr.parse? source = some expr)
    (given : evaluate forest source context state = (.ok result, after)) :
    ∃ calls, evaluate forest source context.recording (state, []) = (.ok result, (after, calls)) := by
  rw [evaluate_of_parse read, ← Program.run_eq_eval forest _ expr source] at given ⊢
  have mirrors := Program.recording_mirrors_run ⟨expr.code, source⟩ forest context (state, [])
  rw [given] at mirrors
  exact ⟨_, Prod.ext mirrors.1 (Prod.ext mirrors.2 rfl)⟩

/-- Whether the nodes that a text gives compare with a literal, asked in either way. -/
inductive Compares (comparison : Comparison) (nodes literal : Expr) : Expr → Prop where
  | atOnce : Compares comparison nodes literal (.comparison comparison nodes literal)
  | oneByOne : Compares comparison nodes literal
      (.call "boolean" [.filter nodes [.comparison comparison .focus literal]])

theorem evaluate_compares (core : context.functions = Registry.core)
    (literal : Expr.IsLiteral text other value) (comparison : Comparison)
    (read : Expr.parse? source = some expr)
    (given : evaluate forest source context state = (.ok (.nodeSet set), after)) {asked : String}
    {asking : Expr} (compares : Compares comparison expr other asking)
    (written : Expr.parse? asked = some asking) :
    evaluate forest asked context state =
      (.ok (.boolean (comparison.holds forest (.nodeSet set) value)), after) := by
  rcases exists_evalAt_of_evaluate given with ⟨same, raw, readSame, outcome, nodes⟩
  cases read.symm.trans readSame
  have truth : comparison.holds forest (.nodeSet raw) value =
      comparison.holds forest (.nodeSet set) value := by
    rw [Bool.eq_iff_iff, comparison.holds_iff_exists forest raw literal.kind_ne,
      comparison.holds_iff_exists forest set literal.kind_ne, nodes]
  rw [evaluate_of_parse written, Expr.eval, bind_apply, ← truth]
  cases compares with
  | atOnce =>
      rw [Expr.evalAt_compared literal comparison outcome]
      rfl
  | oneByOne =>
      rw [Expr.evalAt_left literal comparison outcome core]
      rfl

/-- The nodes that a text gives compare with a literal exactly if filtering them by that comparison
leaves any, and the handler gets the same calls either way. -/
theorem comparison_eq_boolean_filter (core : context.functions = Registry.core)
    (literal : Expr.IsLiteral text other value) (comparison : Comparison)
    (given : evaluate forest source context state = (.ok (.nodeSet set), after)) :
    ∃ nodes truth calls, Expr.parse? source = some nodes ∧
      Expr.parse? ("(" ++ source ++ ") " ++ comparison.sign ++ " " ++ text) =
        some (.comparison comparison nodes other) ∧
      Expr.parse? ("boolean((" ++ source ++ ")[. " ++ comparison.sign ++ " " ++ text ++ "])") =
        some (.call "boolean" [.filter nodes [.comparison comparison .focus other]]) ∧
      ∀ asked asking, Compares comparison nodes other asking → Expr.parse? asked = some asking →
        evaluate forest asked context state = (.ok (.boolean truth), after) ∧
        evaluate forest asked context.recording (state, []) =
          (.ok (.boolean truth), (after, calls)) := by
  rcases exists_evalAt_of_evaluate given with ⟨expr, _, read, _, _⟩
  rcases exists_recording read given with ⟨calls, recorded⟩
  have coreToo : context.recording.functions = Registry.core := core
  refine ⟨expr, comparison.holds forest (.nodeSet set) value, calls, read, ?_, ?_, ?_⟩
  · exact Expr.parse?_enclosed_comparison read comparison literal.operand (Nat.zero_le _)
  · have spelled : ("." ++ " " ++ comparison.sign ++ " " ++ text).toList =
        ['.'] ++ ' ' :: (comparison.sign.toList ++ ' ' :: text.toList) := by
      simp
    have body := Expr.Body.binary Expr.Operand.focus literal.operand
      (Expr.isOperator_comparison comparison)
    rw [← spelled] at body
    have filtered := Expr.parse?_enclosed_filter read
      (Expr.parse?_of_body body (Nat.le_add_left 1 _))
    have whole : "boolean((" ++ source ++ ")[. " ++ comparison.sign ++ " " ++ text ++ "])" =
        "boolean" ++ "(" ++ ("(" ++ source ++ ")[" ++
          ("." ++ " " ++ comparison.sign ++ " " ++ text) ++ "]") ++ ")" := by
      apply String.toList_injective
      simp
    rw [whole]
    exact Expr.parse?_enclosed_argument (.simple (by decide)) (by decide) filtered
  · intro asked asking compares written
    exact ⟨evaluate_compares core literal comparison read given compares written,
      evaluate_compares coreToo literal comparison read recorded compares written⟩

/-- Items without a text are unequal to every number. -/
theorem comparison_eq_boolean_filter_items :
    let context : Context Unit := { node := some ⟨9⟩ }
    ∃ nodes truth calls, Expr.parse? "//li" = some nodes ∧
      Expr.parse? ("(" ++ "//li" ++ ") " ++ Comparison.sign .ne ++ " " ++ "2") =
        some (.comparison .ne nodes (.number (Float.ofNat 2))) ∧
      Expr.parse? ("boolean((" ++ "//li" ++ ")[. " ++ Comparison.sign .ne ++ " " ++ "2" ++ "])") =
        some (.call "boolean" [.filter nodes [.comparison .ne .focus (.number (Float.ofNat 2))]]) ∧
      ∀ asked asking, Compares .ne nodes (.number (Float.ofNat 2)) asking →
        Expr.parse? asked = some asking →
        evaluate listDocument.1 asked context () = (.ok (.boolean truth), ()) ∧
        evaluate listDocument.1 asked context.recording ((), []) =
          (.ok (.boolean truth), ((), calls)) := by
  have spelled : Expr.numeral "2".toList = some (Float.ofNat 2, []) := by decide +kernel
  exact comparison_eq_boolean_filter rfl (.number spelled) .ne evaluate_items

end Query

end NodeQuery

import Mathlib.Data.String.Basic
import NodeQuery.Proofs.Selector.Selection

/-!
# Quoted texts

Whatever a text contains, the literal written for it is read as one operand, and evaluates to the text
again.  A text with quotes of both kinds is parted at its single quotes; each part lacks them, the quotes
between the parts are written between double quotes, and the call puts all of it together again.
-/

namespace NodeQuery

open NodeQuery.Expr (Body Operand IsName callChars evalAt evalAll evalAll_cons evalAll_nil evalAt_call
  evalAt_string)
open NodeQuery.Selector (Quotable operand_quoteLiteral)

/-- Parting goes on with what has been passed of a part, behind what has been parted already. -/
theorem splitOnAux_quote (before part rest : List Char) (found : List String) :
    String.splitOnAux (String.ofList (before ++ part ++ rest)) "'" ⟨String.utf8Len before⟩
        ⟨String.utf8Len before + String.utf8Len part⟩ 0 found =
      found.reverse ++ (List.splitOnPPrepend (· == '\'') rest part.reverse).map String.ofList := by
  have ended := String.atEnd_of_valid (before ++ part) rest
  rw [String.utf8Len_append] at ended
  unfold String.splitOnAux
  cases rest with
  | nil =>
      have piece := String.extract_of_valid before part []
      rw [if_pos (ended.mpr rfl), piece]
      simp
  | cons c rest =>
      have here := String.get_of_valid (before ++ part) (c :: rest)
      have next := String.next_of_valid (before ++ part) c rest
      rw [String.utf8Len_append] at here next
      rw [if_neg (fun reached => List.cons_ne_nil c rest (ended.mp reached)), here]
      by_cases quote : c = '\''
      · have piece := String.extract_of_valid before part (c :: rest)
        have later := splitOnAux_quote (before ++ part ++ [c]) [] rest (String.ofList part :: found)
        subst quote
        have behind : String.Pos.Raw.next "'" 0 = ⟨1⟩ := rfl
        have done : String.Pos.Raw.atEnd "'" ⟨1⟩ = true := rfl
        have back : String.Pos.Raw.unoffsetBy
            ⟨String.utf8Len before + String.utf8Len part + '\''.utf8Size⟩ ⟨1⟩ =
          ⟨String.utf8Len before + String.utf8Len part⟩ := rfl
        rw [List.headD_cons, if_pos (by decide), behind, if_pos done, next, back, piece]
        simpa [Nat.add_assoc, List.splitOnPPrepend_cons_pos] using later
      · have later := splitOnAux_quote before (part ++ [c]) rest found
        have other : (c == String.Pos.Raw.get "'" 0) = false := beq_eq_false_iff_ne.mpr quote
        have back : String.Pos.Raw.unoffsetBy ⟨String.utf8Len before + String.utf8Len part⟩ 0 =
          ⟨String.utf8Len before + String.utf8Len part⟩ := rfl
        rw [List.headD_cons, other, if_neg Bool.false_ne_true, back, next]
        simpa [Nat.add_assoc, List.splitOnPPrepend_cons_neg, quote] using later

theorem splitOn_quote (text : String) :
    text.splitOn "'" = (text.toList.splitOn '\'').map String.ofList := by
  have parted := splitOnAux_quote [] [] text.toList []
  rw [List.nil_append, List.nil_append, String.ofList_toList] at parted
  exact parted

/-- No part between separators has one inside. -/
theorem not_mem_of_mem_splitOn {α : Type} [BEq α] [LawfulBEq α] {separator : α} {text part : List α}
    (among : part ∈ text.splitOn separator) : separator ∉ part := by
  induction text generalizing part with
  | nil =>
      rw [List.splitOn_nil, List.mem_singleton] at among
      rw [among]
      exact List.not_mem_nil
  | cons c text ih =>
      rw [List.splitOn_cons_eq_if_modifyHead] at among
      split at among
      · rcases List.mem_cons.mp among with same | later
        · rw [same]
          exact List.not_mem_nil
        · exact ih later
      · rename_i other
        cases parts : text.splitOn separator with
        | nil => exact absurd parts (List.splitOn_ne_nil separator text)
        | cons first others =>
            rw [parts] at among ih
            rcases List.mem_cons.mp among with same | later
            · rw [same, List.mem_cons, not_or]
              exact ⟨fun equal => other (beq_iff_eq.mpr equal.symm), ih List.mem_cons_self⟩
            · exact ih (List.mem_cons_of_mem first later)

/-- The parts behind the first, each with the quote that parts it from the one before. -/
def quotedParts (parts : List (List Char)) : List String :=
  parts.flatMap fun part => ["'", String.ofList part]

theorem join_quotedParts (first : List Char) (parts : List (List Char)) :
    String.join (String.ofList first :: quotedParts parts) =
      String.ofList (['\''].intercalate (first :: parts)) := by
  rw [String.join_eq]
  induction parts generalizing first with
  | nil => simp [quotedParts]
  | cons part parts ih =>
      have later := String.ofList_inj.mp (ih part)
      rw [List.map_cons, List.flatten_cons] at later
      rw [List.intercalate_cons_cons, ← later]
      simp [quotedParts]

theorem quotable_of_mem_quotedParts {parts : List (List Char)} (plain : ∀ part ∈ parts, '\'' ∉ part)
    {text : String} (among : text ∈ quotedParts parts) : Quotable text := by
  rcases List.mem_flatMap.mp among with ⟨part, member, within⟩
  rcases List.mem_cons.mp within with rfl | last
  · exact Or.inr (by decide)
  · rw [List.mem_singleton.mp last, Quotable, String.toList_ofList]
    exact Or.inl (plain part member)

/-- A call that puts quoted texts together. -/
theorem operand_concat {first : String} {others : List String}
    (quotable : ∀ text ∈ first :: others, Quotable text) :
    Operand 1 (callChars "concat".toList (quoteLiteral first).toList
      (others.map fun text => (quoteLiteral text).toList))
      (.call "concat" ((first :: others).map .string)) := by
  rcases List.forall_mem_cons.mp quotable with ⟨head, tail⟩
  have bodies : ∀ argument ∈ others.map (fun text => ((quoteLiteral text).toList, Expr.string text)),
      Body 1 argument.1 argument.2 := by
    intro argument member
    rcases List.mem_map.mp member with ⟨text, among, rfl⟩
    exact (operand_quoteLiteral (tail text among)).body
  have call : Operand 1 (callChars "concat".toList _ _) _ :=
    Operand.call (.simple (by decide)) (by decide) (operand_quoteLiteral head).body bodies
  simpa only [List.map_map, Function.comp_def, List.map_cons] using call

/-- A text without single quotes is written between them. -/
theorem toList_quoteLiteral {part : List Char} (plain : '\'' ∉ part) :
    (quoteLiteral (String.ofList part)).toList = '\'' :: (part ++ ['\'']) := by
  simp [quoteLiteral, plain]

/-- The literals of the parts with the quotes between them are the arguments of one call. -/
theorem toList_intercalate_quoted {first : List Char} {parts : List (List Char)}
    (plain : ∀ part ∈ first :: parts, '\'' ∉ part) :
    (", \"'\", ".intercalate ((first :: parts).map fun part => "'" ++ String.ofList part ++ "'")).toList =
      (quoteLiteral (String.ofList first)).toList ++
        ((quotedParts parts).map fun text => (quoteLiteral text).toList).flatMap
          fun text => ',' :: ' ' :: text := by
  rcases List.forall_mem_cons.mp plain with ⟨unquoted, others⟩
  rw [String.toList_intercalate, toList_quoteLiteral unquoted]
  induction parts generalizing first with
  | nil => simp [quotedParts]
  | cons part parts ih =>
      rcases List.forall_mem_cons.mp others with ⟨next, later⟩
      have behind := ih others next later
      have quote : (quoteLiteral "'").toList = ['"', '\'', '"'] := rfl
      simp only [List.map_cons] at behind ⊢
      rw [List.intercalate_cons_cons, behind]
      simp [quotedParts, quote, toList_quoteLiteral next]

variable {σ : Type} {forest : Forest} {context : Context σ} {focus : Focus}

theorem evalAll_strings (texts : List String) :
    evalAll forest context focus (texts.map .string) = pure (texts.map .string) := by
  induction texts with
  | nil => exact evalAll_nil
  | cons text texts ih => exact evalAll_cons (evalAt_string text) ih

/-- Two texts or more are put together by one call. -/
theorem evalAt_concat (core : context.functions = Registry.core) (first second : String)
    (others : List String) :
    evalAt forest context focus (.call "concat" ((first :: second :: others).map .string)) =
      pure (.string (String.join (first :: second :: others))) := by
  apply evalAt_call (evalAll_strings (first :: second :: others)) (by rw [core]; rfl)
  simp [Value.toText, Function.comp_def]

/-- The expression that a literal is read as. -/
structure Literal (text : String) (expr : Expr) : Prop where
  operand : Operand 1 (quoteLiteral text).toList expr
  value : ∀ {σ : Type} (forest : Forest) (context : Context σ) (focus : Focus),
    context.functions = Registry.core → evalAt forest context focus expr = pure (.string text)

theorem Literal.of_quotable {text : String} (quotable : Quotable text) : Literal text (.string text) where
  operand := (operand_quoteLiteral quotable).mono (Nat.zero_le 1)
  value _ _ _ _ := evalAt_string text

/-- A text with quotes of both kinds is put together from its parts. -/
theorem exists_literal_of_parts {text : String} (single : '\'' ∈ text.toList)
    (double : '"' ∈ text.toList) : ∃ expr, Literal text expr := by
  have plain : ∀ part ∈ text.toList.splitOn '\'', '\'' ∉ part := fun part => not_mem_of_mem_splitOn
  have joined : ['\''].intercalate (text.toList.splitOn '\'') = text.toList := List.intercalate_splitOn '\''
  have spelled : (quoteLiteral text).toList = "concat(".toList ++
      (", \"'\", ".intercalate ((text.toList.splitOn '\'').map
        fun part => "'" ++ String.ofList part ++ "'")).toList ++ [')'] := by
    simp [quoteLiteral, single, double, splitOn_quote, Function.comp_def]
  generalize text.toList.splitOn '\'' = parts at plain joined spelled
  rcases parts with _ | ⟨first, _ | ⟨second, others⟩⟩
  · rw [← joined] at single
    cases single
  · rw [List.intercalate_singleton] at joined
    exact absurd single (joined ▸ plain first List.mem_cons_self)
  · rw [toList_intercalate_quoted plain] at spelled
    rcases List.forall_mem_cons.mp plain with ⟨unquoted, later⟩
    have quotable : ∀ piece ∈ String.ofList first :: quotedParts (second :: others), Quotable piece := by
      intro piece member
      rcases List.mem_cons.mp member with rfl | among
      · exact Or.inl (by rwa [String.toList_ofList])
      · exact quotable_of_mem_quotedParts later among
    have pieces := join_quotedParts first (second :: others)
    rw [joined, String.ofList_toList] at pieces
    refine ⟨.call "concat" ((String.ofList first :: quotedParts (second :: others)).map .string), ?_, ?_⟩
    · rw [spelled]
      simpa [callChars] using operand_concat quotable
    · intro σ forest context focus core
      rw [← pieces]
      exact evalAt_concat core (String.ofList first) "'" (String.ofList second :: quotedParts others)

/-- Every text has a literal. -/
theorem exists_literal (text : String) : ∃ expr, Literal text expr := by
  by_cases single : '\'' ∈ text.toList
  · by_cases double : '"' ∈ text.toList
    · exact exists_literal_of_parts single double
    · exact ⟨_, .of_quotable (Or.inr double)⟩
  · exact ⟨_, .of_quotable (Or.inl single)⟩

namespace Query

/-- Whatever a text contains, the literal written for it is read, and its value in every context with
the core functions is the text. -/
theorem evaluate_quoteLiteral (text : String) :
    (∃ expr, Expr.parse? (quoteLiteral text) = some expr) ∧
    ∀ {σ : Type} (forest : Forest) (node : Option NodeId) (bindings : List (String × Value))
      (handler : Option (Handler σ)),
      evaluate forest (quoteLiteral text)
        { node := node, bindings := bindings, functions := Registry.core, handler := handler } =
          pure (.string text) := by
  rcases exists_literal text with ⟨expr, literal⟩
  have filled : 0 < (quoteLiteral text).toList.length := by
    rcases literal.operand.begins with ⟨c, others, spelled, _⟩
    rw [spelled]
    exact Nat.zero_lt_succ others.length
  have read := Expr.parse?_of_body literal.operand.body (Nat.succ_le_succ filled)
  refine ⟨⟨expr, read⟩, fun forest node bindings handler => ?_⟩
  rw [evaluate_of_parse read, Expr.eval, literal.value forest _ _ rfl, pure_bind]
  rfl

end Query

end NodeQuery

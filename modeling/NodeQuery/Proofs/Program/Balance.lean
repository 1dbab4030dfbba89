import NodeQuery.Proofs.Expr.Failure
import NodeQuery.Proofs.Program.Compilation
import NodeQuery.Proofs.Program.Stages
import NodeQuery.Query

/-!
# Balanced programs

No run looks for values that are not there.  How many values an instruction takes and leaves does
not depend on what they are, so the height of the stack can be followed along the code alone, on both
ways that lead on from a jump.  The code of an expression, started at any height, goes through its
instructions without touching what lies below, lands all its jumps, and ends one value higher.
-/

namespace NodeQuery

variable {σ : Type}

namespace Instr

/-- How many values an instruction needs on the stack. -/
def takes : Instr → Nat
  | .number _ | .string _ | .var _ | .focus => 0
  | .arithmetic _ | .comparison _ | .union => 2
  | .call _ count => count
  | .root | .step .. | .filter _ | .negate | .toBoolean | .jumpIfFalse _ | .jumpIfTrue _ | .pop => 1

/-- How many values an instruction leaves in place of those it needs. -/
def leaves : Instr → Nat
  | .pop => 0
  | _ => 1

/-- How many of the instructions behind it an instruction may pass over. -/
def landings : Instr → List Nat
  | .jumpIfFalse skip | .jumpIfTrue skip => [0, skip]
  | _ => [0]

def predicates : Instr → List Predicate
  | .step _ _ predicates | .filter predicates => predicates
  | _ => []

end Instr

/-- The jump of a connective looks at one value and leaves it where it is. -/
theorem Connective.takes_jump (operator : Connective) (skip : Nat) :
    (operator.jump skip).takes = 1 ∧ (operator.jump skip).leaves = 1 ∧
      (operator.jump skip).landings = [0, skip] := by
  cases operator <;> exact ⟨rfl, rfl, rfl⟩

namespace Program

open Evaluation

/-!
## Heights

The height is followed along the code without a look at values, and both ways on from a jump are followed.
-/

/-- From a height of the stack, passing over some instructions first, a code can be gone through on
every way: each instruction finds the values it needs, no way leads beyond the end, and at the end
there is one value. -/
def Fits : List Instr → Nat → Nat → Prop
  | [], skip, height => skip = 0 ∧ height = 1
  | _ :: code, skip + 1, height => Fits code skip height
  | instr :: code, 0, height =>
    instr.takes ≤ height ∧
      ∀ skip ∈ instr.landings, Fits code skip (height - instr.takes + instr.leaves)

theorem Fits.skip_le {code : List Instr} {skip height : Nat} (fits : Fits code skip height) :
    skip ≤ code.length := by
  induction code generalizing skip height with
  | nil => exact Nat.le_of_eq fits.1
  | cons instr code ih =>
      cases skip with
      | zero => exact Nat.zero_le _
      | succ skip => exact Nat.succ_le_succ (ih fits)

/-- Passing over as many instructions as a code has leads behind that code. -/
theorem fits_append (passed : List Instr) {code : List Instr} {skip height : Nat} :
    Fits (passed ++ code) (passed.length + skip) height ↔ Fits code skip height := by
  induction passed with
  | nil => rw [List.nil_append, List.length_nil, Nat.zero_add]
  | cons instr passed ih =>
      rw [List.cons_append, List.length_cons, Nat.add_right_comm, Fits, ih]

/-- An instruction that is no jump. -/
theorem fits_cons {instr : Instr} (straight : instr.landings = [0]) {code : List Instr}
    {height : Nat} (enough : instr.takes ≤ height)
    (rest : Fits code 0 (height - instr.takes + instr.leaves)) : Fits (instr :: code) 0 height := by
  refine ⟨enough, fun skip member => ?_⟩
  rw [straight, List.mem_singleton] at member
  rw [member]
  exact rest

mutual

/-- The code of an expression ends one value above the height it starts from. -/
theorem fits_code (expression : Expr) {rest : List Instr} {height : Nat}
    (behind : Fits rest 0 (height + 1)) : Fits (expression.code ++ rest) 0 height := by
  cases expression with
  | number _ | string _ | var _ | focus =>
      exact fits_cons rfl (Nat.zero_le _) behind
  | call function arguments =>
      rw [Expr.code, List.append_assoc]
      apply fits_codeOfAll arguments
      apply fits_cons rfl (Nat.le_add_left _ _)
      rwa [Instr.takes, Nat.add_sub_cancel]
  | arithmetic operator left right | comparison operator left right | union left right =>
      rw [Expr.code, List.append_assoc, List.append_assoc]
      apply fits_code left
      apply fits_code right
      exact fits_cons rfl (Nat.le_add_left _ _) behind
  | connective operator left right =>
      rw [Expr.code]
      simp only [List.append_assoc, List.cons_append, List.nil_append]
      obtain ⟨takes, leaves, landings⟩ := operator.takes_jump (right.code.length + 2)
      have second : Fits (right.code ++ .toBoolean :: rest) 0 height := by
        apply fits_code right
        exact fits_cons rfl (Nat.le_add_left _ _) behind
      apply fits_code left
      apply fits_cons rfl (Nat.le_add_left _ _)
      refine ⟨?_, fun skip member => ?_⟩
      · rw [takes]
        exact Nat.le_add_left _ _
      · rw [takes, leaves]
        rw [landings, List.mem_pair] at member
        rcases member with rfl | rfl
        · exact fits_cons rfl (Nat.le_add_left _ _) second
        · -- The jump passes over the code of the second operand and an instruction at either end.
          have landed := (fits_append (.pop :: right.code ++ [.toBoolean])).mpr behind
          simpa [Instr.leaves] using landed
  | negate operand =>
      rw [Expr.code, List.append_assoc]
      apply fits_code operand
      exact fits_cons rfl (Nat.le_add_left _ _) behind
  | rootPath steps =>
      rw [Expr.code, List.append_assoc]
      apply fits_cons rfl (Nat.zero_le _)
      apply fits_cons rfl (Nat.le_add_left _ _)
      exact fits_codeOfSteps steps behind
  | focusPath steps =>
      rw [Expr.code, List.cons_append]
      apply fits_cons rfl (Nat.zero_le _)
      exact fits_codeOfSteps steps behind
  | exprPath start steps =>
      rw [Expr.code, List.append_assoc]
      apply fits_code start
      exact fits_codeOfSteps steps behind
  | filter primary predicates =>
      rw [Expr.code, List.append_assoc]
      apply fits_code primary
      exact fits_cons rfl (Nat.le_add_left _ _) behind

/-- The code of several expressions ends as many values higher. -/
theorem fits_codeOfAll (expressions : List Expr) {rest : List Instr} {height : Nat}
    (behind : Fits rest 0 (height + expressions.length)) :
    Fits (Expr.codeOfAll expressions ++ rest) 0 height := by
  cases expressions with
  | nil => exact behind
  | cons first others =>
      rw [Expr.codeOfAll, List.append_assoc]
      apply fits_code first
      apply fits_codeOfAll others
      rwa [Nat.add_assoc, Nat.add_comm 1]

/-- The code of steps ends at the height it starts from, with another value on top. -/
theorem fits_codeOfSteps (steps : List Step) {rest : List Instr} {height : Nat}
    (behind : Fits rest 0 (height + 1)) :
    Fits (Expr.codeOfSteps steps ++ rest) 0 (height + 1) := by
  match steps with
  | [] => exact behind
  | .mk axis test predicates :: steps =>
      rw [Expr.codeOfSteps, List.cons_append]
      apply fits_cons rfl (Nat.le_add_left _ _)
      exact fits_codeOfSteps steps behind

end

theorem fits_code_nil (expression : Expr) : Fits expression.code 0 0 := by
  rw [← List.append_nil expression.code]
  exact fits_code expression ⟨rfl, rfl⟩

theorem keeps_pop (stack : Stack) :
    Keeps (fun _ => True) (fun reached => stack = reached.1 :: reached.2)
      (pop stack : Evaluation σ (Value × Stack)) := by
  cases stack with
  | nil => exact Keeps.throw _
  | cons value rest => exact Keeps.pure rfl

theorem keeps_popArguments (count : Nat) (stack : Stack) :
    Keeps (fun _ => True) (fun reached => reached.2 = stack.drop count)
      (popArguments count stack : Evaluation σ (List Value × Stack)) := by
  rw [popArguments]
  split
  · exact Keeps.throw _
  · exact Keeps.pure rfl

/-- What an instruction makes of a stack with enough values: those it takes are replaced by those it
leaves, and all others stay. -/
def Leaves (instr : Instr) (stack : Stack) (reached : Nat × Stack) : Prop :=
  reached.1 ∈ instr.landings ∧
    ∃ given : Stack, given.length = instr.leaves ∧ reached.2 = given ++ stack.drop instr.takes

section
variable (forest : Forest) (context : Context σ) (focus : Focus)
variable (kept : List NodeId → Evaluation σ (List NodeId))

theorem keeps_execute (instr : Instr) {stack : Stack} (enough : instr.takes ≤ stack.length) :
    Keeps (fun _ => True) (Leaves instr stack)
      (execute forest context focus kept instr stack) := by
  have one (value : Value) {instr : Instr} (straight : instr.landings = [0])
      (single : instr.leaves = 1) {stack rest : Stack} (taken : stack.drop instr.takes = rest) :
      Leaves instr stack (0, value :: rest) := by
    refine ⟨?_, [value], single.symm, ?_⟩
    · rw [straight]
      exact List.mem_singleton_self 0
    · rw [taken]
      rfl
  cases instr with
  | number _ | string _ | focus => exact Keeps.pure (one _ rfl rfl rfl)
  | var name =>
      exact (Keeps.any _).bind fun value _ => Keeps.pure (one value rfl rfl rfl)
  | jumpIfFalse skip | jumpIfTrue skip =>
      obtain ⟨top, rest, rfl⟩ := List.exists_cons_of_length_pos enough
      apply Keeps.pure
      refine ⟨?_, [top], rfl, rfl⟩
      dsimp only [Instr.landings]
      split
      · simp
      · simp
  | pop =>
      apply (keeps_pop stack).bind
      rintro ⟨top, rest⟩ rfl
      exact Keeps.pure ⟨List.mem_singleton_self 0, [], rfl, rfl⟩
  | negate | toBoolean =>
      apply (keeps_pop stack).bind
      rintro ⟨top, rest⟩ rfl
      exact Keeps.pure (one _ rfl rfl rfl)
  | root =>
      apply (keeps_pop stack).bind
      rintro ⟨top, rest⟩ rfl
      exact (Keeps.any _).bind fun roots _ => Keeps.pure (one roots rfl rfl rfl)
  | step _ _ _ | filter _ =>
      apply (keeps_pop stack).bind
      rintro ⟨top, rest⟩ rfl
      apply (Keeps.any _).bind
      intro nodes _
      exact (Keeps.any _).bind fun found _ => Keeps.pure (one _ rfl rfl rfl)
  | arithmetic operator | comparison operator =>
      apply (keeps_pop stack).bind
      rintro ⟨right, rest⟩ rfl
      apply (keeps_pop rest).bind
      rintro ⟨left, rest⟩ rfl
      exact Keeps.pure (one _ rfl rfl rfl)
  | union =>
      apply (keeps_pop stack).bind
      rintro ⟨right, rest⟩ rfl
      apply (Keeps.any _).bind
      intro second _
      apply (keeps_pop rest).bind
      rintro ⟨left, rest⟩ rfl
      exact (Keeps.any _).bind fun first _ => Keeps.pure (one _ rfl rfl rfl)
  | call function count =>
      apply (keeps_popArguments count stack).bind
      rintro ⟨arguments, rest⟩ rfl
      exact (Keeps.any _).bind fun value _ => Keeps.pure (one value rfl rfl rfl)

end

/-- A moment of a run inside a code with instructions behind it and values below it: what is left of
the code can be gone through with the values above those. -/
def Moment.Within (focus : Focus) (behind : List Instr) (base : Stack) (moment : Moment) : Prop :=
  ∃ code own, moment = ⟨focus, code ++ behind, moment.skip, own ++ base⟩ ∧
    Fits code moment.skip own.length

section
variable {forest : Forest} {context : Context σ}
variable {focus : Focus} {behind : List Instr} {base : Stack} {first second : Stage σ}

/-- A step from inside a code starts at the end of the code, with one value more on the stack, or
leads to another moment inside it. -/
theorem Next.within (next : Next forest context first second)
    (within : first.1.Within focus behind base) :
    (∃ value, first.1 = ⟨focus, behind, 0, value :: base⟩) ∨
      second.1.Within focus behind base := by
  obtain ⟨code, own, same, fits⟩ := within
  cases code with
  | nil =>
      obtain ⟨value, rfl⟩ := List.length_eq_one_iff.mp fits.2
      rw [fits.1] at same
      exact Or.inl ⟨value, same⟩
  | cons instr code =>
      right
      cases next with
      | pass =>
          cases same
          exact ⟨code, own, rfl, fits⟩
      | execute done =>
          cases same
          obtain ⟨enough, ahead⟩ := fits
          have wide : instr.takes ≤ (own ++ base).length := by
            rw [List.length_append]
            exact Nat.le_add_right_of_le enough
          obtain ⟨landing, given, count, rfl⟩ :=
            (keeps_execute forest context focus _ instr wide _ trivial).2 _ (congrArg Prod.fst done)
          refine ⟨code, given ++ own.drop instr.takes, ?_, ?_⟩
          · rw [List.drop_append_of_le_length enough, List.append_assoc]
            rfl
          · rw [List.length_append, List.length_drop, count, Nat.add_comm]
            exact ahead _ landing

/-- A run that starts inside a code is inside it still, or has come to its end, with one value more
on the stack, and gone on from there. -/
theorem Reaches.within (reaches : Reaches forest context first second)
    (within : first.1.Within focus behind base) :
    second.1.Within focus behind base ∨ ∃ value state,
      Reaches forest context first (⟨focus, behind, 0, value :: base⟩, state) ∧
        Reaches forest context (⟨focus, behind, 0, value :: base⟩, state) second := by
  induction reaches with
  | refl => exact Or.inl within
  | @tail middle last before next ih =>
      rcases ih with inside | ⟨value, state, ended, after⟩
      · rcases next.within inside with ⟨value, same⟩ | further
        · have here : middle = (⟨focus, behind, 0, value :: base⟩, middle.2) := Prod.ext same rfl
          rw [here] at before next
          exact Or.inr ⟨value, middle.2, before, .single next⟩
        · exact Or.inl further
      · exact Or.inr ⟨value, state, ended, after.tail next⟩

end

/-- A program, and the programs of the predicates in it, at any depth. -/
inductive Part (program : List Instr) : List Instr → Prop
  | whole : Part program program
  | predicate {code inner : List Instr} {instr : Instr} {called : Option String}
      (part : Part program code) (member : instr ∈ code)
      (keeps : .mk inner called ∈ instr.predicates) : Part program inner

/-- All predicates of an instruction are compiled expressions. -/
def Compiled (instr : Instr) : Prop :=
  ∀ inner called, .mk inner called ∈ instr.predicates → ∃ predicate : Expr, inner = predicate.code

theorem compiled_of_no_predicates {instr : Instr} (plain : instr.predicates = []) :
    Compiled instr := by
  intro inner called member
  rw [plain] at member
  cases member

theorem exists_code_of_mem_compilePredicates {predicates : List Expr} {inner : List Instr}
    {called : Option String} (member : .mk inner called ∈ Expr.compilePredicates predicates) :
    ∃ predicate : Expr, inner = predicate.code := by
  induction predicates with
  | nil =>
      rw [Expr.compilePredicates] at member
      cases member
  | cons first others ih =>
      rw [Expr.compilePredicates] at member
      rcases List.mem_cons.mp member with same | later
      · cases same
        exact ⟨first, rfl⟩
      · exact ih later

mutual

theorem compiled_code (expression : Expr) : ∀ instr ∈ expression.code, Compiled instr := by
  cases expression with
  | number _ | string _ | var _ | focus =>
      exact List.forall_mem_singleton.mpr (compiled_of_no_predicates rfl)
  | call function arguments =>
      exact List.forall_mem_append.mpr ⟨compiled_codeOfAll arguments,
        List.forall_mem_singleton.mpr (compiled_of_no_predicates rfl)⟩
  | arithmetic operator left right | comparison operator left right | union left right =>
      refine List.forall_mem_append.mpr ⟨List.forall_mem_append.mpr ⟨?_, ?_⟩, ?_⟩
      · exact compiled_code left
      · exact compiled_code right
      · exact List.forall_mem_singleton.mpr (compiled_of_no_predicates rfl)
  | connective operator left right =>
      have truth : ∀ instr ∈ [Instr.toBoolean], Compiled instr :=
        List.forall_mem_singleton.mpr (compiled_of_no_predicates rfl)
      have jump (skip : Nat) : Compiled (operator.jump skip) := by
        apply compiled_of_no_predicates
        cases operator <;> rfl
      have between (skip : Nat) :
          ∀ instr ∈ [Instr.toBoolean, operator.jump skip, .pop], Compiled instr := by
        simp only [List.forall_mem_cons]
        exact ⟨compiled_of_no_predicates rfl, jump skip, compiled_of_no_predicates rfl,
          List.forall_mem_nil _⟩
      exact List.forall_mem_append.mpr ⟨List.forall_mem_append.mpr
        ⟨List.forall_mem_append.mpr ⟨compiled_code left, between _⟩, compiled_code right⟩, truth⟩
  | negate operand =>
      exact List.forall_mem_append.mpr ⟨compiled_code operand,
        List.forall_mem_singleton.mpr (compiled_of_no_predicates rfl)⟩
  | rootPath steps =>
      refine List.forall_mem_append.mpr ⟨?_, compiled_codeOfSteps steps⟩
      exact List.forall_mem_cons.mpr ⟨compiled_of_no_predicates rfl,
        List.forall_mem_singleton.mpr (compiled_of_no_predicates rfl)⟩
  | focusPath steps =>
      exact List.forall_mem_cons.mpr ⟨compiled_of_no_predicates rfl, compiled_codeOfSteps steps⟩
  | exprPath start steps =>
      exact List.forall_mem_append.mpr ⟨compiled_code start, compiled_codeOfSteps steps⟩
  | filter primary predicates =>
      refine List.forall_mem_append.mpr ⟨compiled_code primary, List.forall_mem_singleton.mpr ?_⟩
      exact fun inner called member => exists_code_of_mem_compilePredicates member

theorem compiled_codeOfAll (expressions : List Expr) :
    ∀ instr ∈ Expr.codeOfAll expressions, Compiled instr := by
  cases expressions with
  | nil => exact List.forall_mem_nil _
  | cons first others =>
      exact List.forall_mem_append.mpr ⟨compiled_code first, compiled_codeOfAll others⟩

theorem compiled_codeOfSteps (steps : List Step) :
    ∀ instr ∈ Expr.codeOfSteps steps, Compiled instr := by
  match steps with
  | [] => exact List.forall_mem_nil _
  | .mk axis test predicates :: steps =>
      refine List.forall_mem_cons.mpr ⟨?_, compiled_codeOfSteps steps⟩
      exact fun inner called member => exists_code_of_mem_compilePredicates member

end

/-- The programs in the program of an expression are programs of expressions. -/
theorem Part.exists_code {expression : Expr} {code : List Instr} (part : Part expression.code code) :
    ∃ inner : Expr, code = inner.code := by
  induction part with
  | whole => exact ⟨expression, rfl⟩
  | predicate _ member keeps ih =>
      obtain ⟨outer, rfl⟩ := ih
      exact compiled_code outer _ member _ _ keeps

/-- What holds at every moment of a run inside a code: the values below are untouched, the code is
not overrun, the next instruction finds all it needs above those values, and at the end of the code
there is one value more. -/
structure Moment.Balanced (behind : List Instr) (base : Stack) (moment : Moment) : Prop where
  above : base <:+ moment.stack
  lands : moment.skip + behind.length ≤ moment.code.length
  enough : ∀ instr rest, moment.code = instr :: rest → behind.length ≤ rest.length →
    moment.skip = 0 → instr.takes + base.length ≤ moment.stack.length
  single : moment.code = behind → ∃ value, moment.stack = value :: base

theorem Moment.Within.balanced {focus : Focus} {behind : List Instr} {base : Stack} {moment : Moment}
    (within : moment.Within focus behind base) : moment.Balanced behind base := by
  obtain ⟨code, own, same, fits⟩ := within
  rw [same]
  constructor
  · exact List.suffix_append own base
  · dsimp only
    rw [List.length_append]
    exact Nat.add_le_add_right fits.skip_le _
  · intro instr rest split room here
    dsimp only at split here ⊢
    rw [here] at fits
    cases code with
    | nil =>
        rw [List.nil_append] at split
        rw [split, List.length_cons] at room
        omega
    | cons first code =>
        cases split
        rw [List.length_append]
        exact Nat.add_le_add_right fits.1 _
  · intro ended
    dsimp only at ended ⊢
    rw [List.append_left_eq_self] at ended
    rw [ended] at fits
    obtain ⟨value, rfl⟩ := List.length_eq_one_iff.mp fits.2
    exact ⟨value, rfl⟩

theorem exists_code_of_compile {text : String} {program : Program}
    (compiled : compile text = .ok program) :
    ∃ expression : Expr, program.code = expression.code := by
  unfold compile at compiled
  cases parsed : Expr.parse? text with
  | none =>
      rw [parsed] at compiled
      cases compiled
  | some expression =>
      rw [parsed] at compiled
      cases compiled
      exact ⟨expression, rfl⟩

section
variable {forest : Forest} {context : Context σ} {focus : Focus} {state after : σ}

/-- An empty stack is reported by a run of an expression only if a registered function reports it. -/
theorem raised_of_emptyStack {expression : Expr}
    (failed : runFrom forest context focus expression.code 0 [] state =
      (.error (.type .emptyStack), after)) :
    ∃ name arguments body site, context.functions.resolve name arguments.length = .ok body ∧
      body forest site arguments = .error (.type .emptyStack) := by
  rw [runFrom_code_nil] at failed
  rcases Expr.failsWith_evalAt focus expression state _ (congrArg Prod.fst failed) with own | raised
  · exact own.elim
  · exact raised

/-- A run that starts on the code of an expression keeps above the values that were there before,
until it has come to the end of that code with one value more. -/
theorem Reaches.balanced {expression : Expr} {behind : List Instr} {base : Stack} {stage : Stage σ}
    (reaches : Reaches forest context (⟨focus, expression.code ++ behind, 0, base⟩, state) stage) :
    stage.1.Balanced behind base ∨ ∃ value middle,
      Reaches forest context (⟨focus, expression.code ++ behind, 0, base⟩, state)
          (⟨focus, behind, 0, value :: base⟩, middle) ∧
        Reaches forest context (⟨focus, behind, 0, value :: base⟩, middle) stage := by
  have start : Moment.Within focus behind base ⟨focus, expression.code ++ behind, 0, base⟩ :=
    ⟨expression.code, [], rfl, fits_code_nil expression⟩
  exact (reaches.within start).imp_left Moment.Within.balanced

/-- With nothing behind the code and nothing below, a run keeps to the code until its end. -/
theorem Reaches.balanced_nil {expression : Expr} {stage : Stage σ}
    (reaches : Reaches forest context (⟨focus, expression.code, 0, []⟩, state) stage) :
    stage.1.Balanced [] [] := by
  rw [← List.append_nil expression.code] at reaches
  rcases reaches.balanced with inside | ⟨value, middle, _, ended⟩
  · exact inside
  · rcases ended.cases_head with rfl | ⟨_, impossible, _⟩
    · have atEnd (instr : Instr) (rest : List Instr) : [] ≠ instr :: rest :=
        (List.cons_ne_nil instr rest).symm
      exact ⟨List.nil_suffix, Nat.le_refl _, fun instr rest split => absurd split (atEnd instr rest),
        fun _ => ⟨value, rfl⟩⟩
    · cases impossible

/-- A run of an expression gives a value exactly if it comes to its end with that value alone. -/
theorem runFrom_code_eq_ok_iff {expression : Expr} {value : Value} :
    runFrom forest context focus expression.code 0 [] state = (.ok value, after) ↔
      Reaches forest context (⟨focus, expression.code, 0, []⟩, state)
        (⟨focus, [], 0, [value]⟩, after) := by
  constructor
  · intro given
    obtain ⟨passed, rest, reaches⟩ := exists_reaches_end given
    have balanced := reaches.balanced_nil
    obtain rfl : passed = 0 := Nat.le_zero.mp balanced.lands
    obtain ⟨_, single⟩ := balanced.single rfl
    cases single
    exact reaches
  · intro reaches
    exact reaches.outcome_eq.trans (outcome_end focus 0 value [] after)

end

/-- The program of an expression, and every program of a predicate inside it, runs in balance from
every focus, with every context and every handler.  At each moment the next instruction finds its
values and no jump has left the program; a run that ends without an error ends with one value on the
stack; and that values are missing is reported only where a registered function, not one of the core
functions, reports it.  The code of an expression inside a program never reaches below the height it
starts at and ends one value above it. -/
theorem compiled_balanced {text : String} {program : Program} (compiled : compile text = .ok program)
    {code : List Instr} (part : Part program.code code) (forest : Forest) (context : Context σ)
    (focus : Focus) (state : σ) :
    let start : Stage σ := (⟨focus, code, 0, []⟩, state)
    (∀ stage, Reaches forest context start stage → stage.1.Balanced [] []) ∧
    (∀ value after, runFrom forest context focus code 0 [] state = (.ok value, after) ↔
      Reaches forest context start (⟨focus, [], 0, [value]⟩, after)) ∧
    (∀ after, runFrom forest context focus code 0 [] state = (.error (.type .emptyStack), after) →
      context.functions ≠ Registry.core ∧ ∃ name arguments body site,
        context.functions.resolve name arguments.length = .ok body ∧
          body forest site arguments = .error (.type .emptyStack)) ∧
    ∀ (inner : Expr) behind base stage,
      let entered : Stage σ := (⟨focus, inner.code ++ behind, 0, base⟩, state)
      Reaches forest context entered stage →
        stage.1.Balanced behind base ∨ ∃ value middle,
          Reaches forest context entered (⟨focus, behind, 0, value :: base⟩, middle) ∧
            Reaches forest context (⟨focus, behind, 0, value :: base⟩, middle) stage := by
  intro start
  obtain ⟨whole, same⟩ := exists_code_of_compile compiled
  rw [same] at part
  obtain ⟨expression, rfl⟩ := part.exists_code
  refine ⟨fun _ => Reaches.balanced_nil, fun _ _ => runFrom_code_eq_ok_iff, ?_,
    fun _ _ _ _ => Reaches.balanced⟩
  intro after failed
  obtain ⟨name, arguments, body, site, resolved, raised⟩ := raised_of_emptyStack failed
  refine ⟨fun core => ?_, name, arguments, body, site, resolved, raised⟩
  rw [core] at resolved
  exact Registry.core_ne_emptyStack resolved forest site raised

/-- A predicate with a connective, inside another connective: no run of it on its own reports that
values are missing. -/
theorem compiled_balanced_connectives :
    let inner := Expr.connective .and (.string "b") .focus
    ∃ program, compile "'a' or t['b' and .]" = .ok program ∧ Part program.code inner.code ∧
      (∀ stage, Reaches {} ({} : Context Unit) (⟨{}, inner.code, 0, []⟩, ()) stage →
        stage.1.Balanced [] []) ∧
      ∀ after, runFrom {} ({} : Context Unit) {} inner.code 0 [] () ≠
        (.error (.type .emptyStack), after) := by
  intro inner
  have compiled : compile "'a' or t['b' and .]" = .ok
      ⟨(Expr.connective .or (.string "a")
        (.focusPath [.mk .child (.named "t") [inner]])).code, "'a' or t['b' and .]"⟩ := rfl
  refine ⟨_, compiled, ?_⟩
  have part : Part (Expr.connective .or (.string "a")
      (.focusPath [.mk .child (.named "t") [inner]])).code inner.code := by
    have filtered : Predicate.mk inner.code none ∈
        (Instr.step .child (.named "t") [.mk inner.code none]).predicates :=
      List.mem_singleton_self _
    refine .predicate .whole ?_ filtered
    simp [Expr.code, Expr.codeOfSteps, Expr.compilePredicates, inner, Expr.calledFunction?]
  have balanced := compiled_balanced compiled part {} ({} : Context Unit) {} ()
  refine ⟨part, balanced.1, fun after failed => ?_⟩
  exact (balanced.2.2.1 after failed).1 rfl

end Program

end NodeQuery

import Mathlib.Logic.Relation
import NodeQuery.Program.Trace
import NodeQuery.Proofs.Evaluation

/-!
# Runs step by step

A run goes from moment to moment: an instruction is passed over or carried out, and nothing else
happens between two moments.  A run that gives a value is one that comes to the end of its code; what
is left of a run at any moment ends as the whole run does.
-/

namespace NodeQuery

namespace Program

variable {σ : Type} {forest : Forest} {context : Context σ}

/-- A moment of a run with the state of the handler at that moment. -/
abbrev Stage (σ : Type) : Type := Moment × σ

/-- From one stage of a run to the next one. -/
inductive Next (forest : Forest) (context : Context σ) : Stage σ → Stage σ → Prop
  | pass {focus : Focus} {instr : Instr} {code : List Instr} {skip : Nat} {stack : Stack}
      {state : σ} :
      Next forest context (⟨focus, instr :: code, skip + 1, stack⟩, state)
        (⟨focus, code, skip, stack⟩, state)
  | execute {focus : Focus} {instr : Instr} {code : List Instr} {skip : Nat} {stack left : Stack}
      {state after : σ}
      (done : execute forest context focus (keptBy forest context instr) instr stack state =
        (.ok (skip, left), after)) :
      Next forest context (⟨focus, instr :: code, 0, stack⟩, state)
        (⟨focus, code, skip, left⟩, after)

abbrev Reaches (forest : Forest) (context : Context σ) : Stage σ → Stage σ → Prop :=
  Relation.ReflTransGen (Next forest context)

def outcome (forest : Forest) (context : Context σ) (stage : Stage σ) : Except Error Value × σ :=
  runFrom forest context stage.1.focus stage.1.code stage.1.skip stage.1.stack stage.2

theorem Next.outcome_eq {first second : Stage σ} (next : Next forest context first second) :
    outcome forest context first = outcome forest context second := by
  cases next with
  | pass => rw [outcome, runFrom, outcome]
  | execute done =>
      rw [outcome, runFrom, Evaluation.bind_apply, done, outcome]

theorem Reaches.outcome_eq {first last : Stage σ} (reaches : Reaches forest context first last) :
    outcome forest context first = outcome forest context last := by
  induction reaches with
  | refl => rfl
  | tail _ next ih => rw [ih, next.outcome_eq]

/-- At the end of its code a run gives the uppermost value. -/
theorem outcome_end (focus : Focus) (skip : Nat) (value : Value) (stack : Stack) (state : σ) :
    outcome forest context (⟨focus, [], skip, value :: stack⟩, state) = (.ok value, state) := by
  rw [outcome, runFrom, pop]
  rfl

/-- A run that gives a value comes to the end of its code with the value on top of the stack. -/
theorem exists_reaches_end {focus : Focus} {code : List Instr} {skip : Nat} {stack : Stack}
    {state after : σ} {value : Value}
    (given : outcome forest context (⟨focus, code, skip, stack⟩, state) = (.ok value, after)) :
    ∃ passed rest, Reaches forest context (⟨focus, code, skip, stack⟩, state)
      (⟨focus, [], passed, value :: rest⟩, after) := by
  induction code generalizing skip stack state with
  | nil =>
      cases stack with
      | nil =>
          rw [outcome, runFrom] at given
          cases given
      | cons top rest =>
          rw [outcome_end] at given
          cases given
          exact ⟨skip, rest, .refl⟩
  | cons instr code ih =>
      have goesOn {second : Stage σ}
          (next : Next forest context (⟨focus, instr :: code, skip, stack⟩, state) second)
          (same : second.1.focus = focus ∧ second.1.code = code) :
          ∃ passed rest, Reaches forest context (⟨focus, instr :: code, skip, stack⟩, state)
            (⟨focus, [], passed, value :: rest⟩, after) := by
        rcases second with ⟨⟨_, _, skip, left⟩, middle⟩
        obtain ⟨rfl, rfl⟩ := same
        rw [next.outcome_eq] at given
        obtain ⟨passed, rest, reaches⟩ := ih given
        exact ⟨passed, rest, .head next reaches⟩
      cases skip with
      | succ skip => exact goesOn .pass ⟨rfl, rfl⟩
      | zero =>
          rcases done : execute forest context focus (keptBy forest context instr) instr stack
            state with ⟨error | ⟨skip, left⟩, middle⟩
          · rw [outcome, runFrom, Evaluation.bind_apply, done] at given
            cases given
          · exact goesOn (.execute done) ⟨rfl, rfl⟩

end Program

end NodeQuery

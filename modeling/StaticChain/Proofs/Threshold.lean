import StaticChain.Proofs.Budget
import StaticChain.Proofs.History

/-!
# The budget as a threshold

A run that does not use up its budget does not depend on it: with every budget that reaches as far as the
instructions it executes, it is the same run. With every other budget it is cut off in the middle, at the first
instruction that the budget has no step for (`run_threshold`). So the instructions that a call executes are the
smallest budget with which it ends as it does (`call_threshold`).
-/

namespace StaticChain.Machine

open Lir (FunctionId)

variable {m : Lir.Module} {maxSteps left steps : Nat} {s : State}

/-- A run was cut off: all steps of the budget are used up, and one more instruction is counted. -/
structure Result.CutOff (r : Result) (budget steps : Nat) : Prop where
  outcome : ∃ function, r.outcome = .failed (.budgetExhausted budget function)
  steps_eq : r.steps = max budget steps + 1

/-- Where nothing is left of a budget, no instruction is executed. -/
theorem cutOff_of_settle {inst : Lir.Inst} {blocks : List Block} {budget : Nat}
    (h : s.active.settle s.active.blocks = .next inst blocks) (hle : budget ≤ steps) :
    (run m budget (budget - steps) s steps).CutOff budget steps := by
  rw [Nat.sub_eq_zero_of_le hle]
  unfold run
  simp only [h]
  exact ⟨⟨_, rfl⟩, by rw [Nat.max_eq_right hle]⟩

/-- A run that did not use up its budget is the same with any other that is large enough, and is cut off with
one that is not. -/
theorem run_threshold (hends : ¬(run m maxSteps left s steps).outcome.IsExhausted) (budget : Nat) :
    ((run m maxSteps left s steps).steps ≤ max budget steps →
      run m budget (budget - steps) s steps = run m maxSteps left s steps) ∧
    (max budget steps < (run m maxSteps left s steps).steps →
      (run m budget (budget - steps) s steps).CutOff budget steps) := by
  induction left generalizing s steps with
  | zero =>
    cases hsettle : s.active.settle s.active.blocks with
    | next inst blocks => exact absurd (State.run_zero hsettle) hends
    | fault _ | stuck =>
      unfold run
      simp only [hsettle]
      exact ⟨fun _ => trivial, fun h => absurd h (by omega)⟩
  | succ left ih =>
    cases hsettle : s.active.settle s.active.blocks with
    | fault _ | stuck =>
      unfold run
      simp only [hsettle]
      exact ⟨fun _ => trivial, fun h => absurd h (by omega)⟩
    | next inst blocks =>
      have hcut : budget ≤ steps → (run m budget (budget - steps) s steps).CutOff budget steps :=
        cutOff_of_settle hsettle
      have hgoes : steps < budget → budget - steps = budget - (steps + 1) + 1 := by omega
      rw [State.run_succ hsettle] at hends ⊢
      cases hstep : (s.take blocks).step m inst with
      | stopped outcome store =>
        simp only
        by_cases hlt : steps < budget
        · rw [hgoes hlt, State.run_succ hsettle, hstep]
          simp only [implies_true, true_and]
          omega
        · exact ⟨fun h => absurd h (by omega), fun _ => hcut (by omega)⟩
      | running next =>
        simp only [hstep] at hends ⊢
        have hsteps := le_steps_run (m := m) maxSteps left (steps + 1) next
        by_cases hlt : steps < budget
        · rw [hgoes hlt, State.run_succ hsettle, hstep]
          have hmax : max budget steps = max budget (steps + 1) := by omega
          have hrest := ih hends
          rw [hmax]
          exact ⟨hrest.1, fun h => ⟨(hrest.2 h).outcome, by rw [(hrest.2 h).steps_eq, hmax]⟩⟩
        · exact ⟨fun h => absurd h (by omega), fun _ => hcut (by omega)⟩

/-- A call that executed an instruction and did not use up its budget ends in the same way, with the same store
and the same count, under every budget that has a step for each of its instructions. Under any smaller budget
it fails, with the count one above the budget, or one above the count before the call where that is larger. -/
theorem call_threshold {machine after : Machine} {id : FunctionId} {args : List Value} {outcome : Outcome}
    (h : machine.call id args = (outcome, after)) (hends : ¬outcome.IsExhausted)
    (hsteps : machine.steps < after.steps) (budget : Nat) :
    (after.steps ≤ budget →
      { machine with maxSteps := budget }.call id args = (outcome, { after with maxSteps := budget })) ∧
    (budget < after.steps → ∃ function store, { machine with maxSteps := budget }.call id args =
      (.failed (.budgetExhausted budget function),
        { machine with maxSteps := budget, store, steps := max budget machine.steps + 1 })) := by
  obtain ⟨m, maxSteps, store, steps⟩ := machine
  unfold Machine.call at h ⊢
  cases hf : m.function? id with
  | none =>
    simp only [hf] at h
    cases h
    exact absurd hsteps (Nat.lt_irrefl _)
  | some f =>
    cases ha : Activation.enter f args none with
    | error fault =>
      simp only [hf, ha] at h
      cases h
      exact absurd hsteps (Nat.lt_irrefl _)
    | ok active =>
      simp only [hf, ha] at h ⊢
      cases h
      simp only at hsteps ⊢
      obtain ⟨henough, htooFew⟩ := run_threshold hends budget
      constructor
      · intro hle
        rw [henough (by omega)]
      · intro hlt
        obtain ⟨⟨function, houtcome⟩, hcount⟩ := htooFew (by omega)
        exact ⟨function, _, by rw [houtcome, hcount]⟩

/-- Counting down from two executes eleven instructions: a budget of eleven is enough and one of ten is not. -/
theorem call_threshold_countdown :
    ({ boot countdown 100 with maxSteps := 11 }.call ⟨0⟩ [.int 2]).1 = .returned none ∧
    ({ boot countdown 100 with maxSteps := 10 }.call ⟨0⟩ [.int 2]).2.steps = 11 := by
  have hreturned : ((boot countdown 100).call ⟨0⟩ [.int 2]).1 = .returned none := by decide +kernel
  have hcount : ((boot countdown 100).call ⟨0⟩ [.int 2]).2.steps = 11 := by decide +kernel
  have hcall : (boot countdown 100).call ⟨0⟩ [.int 2] =
      (.returned none, ((boot countdown 100).call ⟨0⟩ [.int 2]).2) := Prod.ext hreturned rfl
  have hends : ¬(Outcome.returned none).IsExhausted := fun ⟨_, _, h⟩ => by cases h
  have hspent : (boot countdown 100).steps < ((boot countdown 100).call ⟨0⟩ [.int 2]).2.steps := by
    rw [hcount]
    decide
  obtain ⟨henough, -⟩ := call_threshold hcall hends hspent 11
  obtain ⟨-, htooFew⟩ := call_threshold hcall hends hspent 10
  obtain ⟨function, store, hcut⟩ := htooFew (by rw [hcount]; decide)
  exact ⟨by rw [henough (Nat.le_of_eq hcount)], by rw [hcut]; rfl⟩

end StaticChain.Machine

import StaticChain.Proofs.Meaning

/-!
# Safety of compiled programs

The rules of the representation hold in every run of a type-correct program: no value is used before it is
defined or as something that it is not, no frame after its release, no slot that a struct does not have.
What a call can fail for is in the program itself or in the limits of the machine (`Nesting.Admits`), and
every call ends (`callByName_returned_or_admits`).
-/

namespace StaticChain

open Lir (LocalId)
open Machine

/-- The faults that a call of a compiled function can end with. -/
inductive Nesting.Admits (n : Nesting) : Fault → Prop
  | divisionByZero : Admits n .divisionByZero
  | budgetExhausted {maxSteps : Nat} {function : String} : Admits n (.budgetExhausted maxSteps function)
  | depthExceeded {function : String} : Admits n (.depthExceeded function)
  /-- The local of a variable that the running function declares. -/
  | localUnset {x : VarId} {var : Variable} {id : LocalId} : n.program.var? x = some var →
      Admits n (.localUnset id (n.program.qualifiedName var.owner))
  /-- The slot holds a captured variable, not a link. -/
  | slotUnset {x : VarId} {l : Layout} {i : Nat} {slot : Layout.Slot} {o : ObjectId} :
      n.layouts.byStruct? l.struct = some l → l.slots[i]? = some slot → slot.kind = .captured x →
      Admits n (.slotUnset i o l.struct)
  /-- The end of a function that has a result. -/
  | resultMissing {id : DeclId} {function : FunctionDecl} : n.program.function? id = some function →
      function.returnType.isUnit = false → Admits n (.resultMissing (n.program.qualifiedName id))

theorem Nesting.Causes.admits {n : Nesting} {stop : Stop} {cause : Fault} (h : n.Causes stop cause) :
    n.Admits cause := by
  cases h with
  | divisionByZero => exact .divisionByZero
  | localUnset hv => exact .localUnset hv
  | slotUnset hl hslot hkind => exact .slotUnset hl hslot hkind
  | resultMissing hf hunit => exact .resultMissing hf hunit
  | depthExceeded => exact .depthExceeded

theorem Nesting.EndsAs.returned_or_admits {n : Nesting} {r : Except Stop (Option Datum)} {outcome : Outcome}
    (h : n.EndsAs r outcome) :
    (∃ value, outcome = .returned value) ∨ ∃ cause, outcome = .failed cause ∧ n.Admits cause := by
  cases h with
  | returned _ => exact .inl ⟨_, rfl⟩
  | failed hcause => exact .inr ⟨_, rfl, hcause.admits⟩

/-- A call that is not refused ends, whatever its budget is and whatever calls were made before: with a
value, or with a fault of the program or of the machine's limits. -/
theorem callByName_returned_or_admits {p : Program} (hp : p.check = .ok ()) (hc : p.ChildrenDistinct)
    (ht : p.TypeCorrect) (hr : p.ReturnsMatch) {settings : Settings} {u : CompiledUnit}
    (hu : settings.compile p = .ok u) :
    ∃ n, Nesting.of p settings.frames = .ok n ∧ ∀ {maxSteps : Nat} {machine : Machine} {name : String}
      {args : List Int64} {s : State}, Called u.lir maxSteps machine → machine.Enters name args s →
      (∃ value, (machine.callByName name args).1 = .returned value) ∨
        ∃ cause, (machine.callByName name args).1 = .failed cause ∧ n.Admits cause := by
  obtain ⟨n, hn, hlower⟩ := Nesting.exists_of_compile hu
  obtain ⟨rfl, hbuilt⟩ := Nesting.built_of_eq_ok (Program.checked_of_check hp) hn
  refine ⟨n, hn, fun {maxSteps machine name args s} hcalled henters => ?_⟩
  have hexhausted : (machine.outcomeWithin machine.maxSteps name args).IsExhausted →
      ∃ cause, (machine.callByName name args).1 = .failed cause ∧ n.Admits cause := by
    rintro ⟨budget, function, heq⟩
    exact ⟨_, heq, .budgetExhausted⟩
  -- One round more than there are steps left is a limit that no loop meets in time.
  rcases hcalled.ends hbuilt hc hlower ht hr henters (machine.maxSteps - machine.steps + 1) with
    ⟨-, hrun⟩ | ⟨k, outcome, hends, hrun⟩
  · exact .inr (hexhausted (hrun _ (Nat.lt_succ_self _)))
  · by_cases hle : k ≤ machine.maxSteps - machine.steps
    · have heq : (machine.callByName name args).1 = outcome := (hrun machine.maxSteps).1 hle
      rw [heq]
      exact hends.returned_or_admits
    · exact .inr (hexhausted ((hrun _).2 (by omega)))

/-- The running total is returned. -/
theorem callByName_returned_or_admits_tally : ∃ u s, ({} : Settings).compile tally = .ok u ∧
    (boot u.lir 60).Enters "main" [5] s ∧
    ((boot u.lir 60).callByName "main" [5]).1 = .returned (some (.int 21)) := by
  obtain ⟨u, s, hu, henters, -⟩ := exists_enters_tally
  obtain ⟨n, -, hall⟩ := callByName_returned_or_admits tally_check tally_childrenDistinct
    tally_typeCorrect tally_returnsMatch hu
  have hvalue : (({} : Settings).compile tally).toOption.any (fun u =>
      match ((boot u.lir 60).callByName "main" [5]).1 with
      | .returned value => decide (value = some (.int 21))
      | _ => false) = true := by
    decide +kernel
  simp only [hu, Except.toOption, Option.any_some] at hvalue
  refine ⟨u, s, hu, henters, ?_⟩
  -- Of the two ends that there can be, it is the first, with the total.
  rcases hall .boot henters with ⟨value, hreturned⟩ | ⟨cause, hfailed, -⟩
  · rw [hreturned, decide_eq_true_eq] at hvalue
    rw [hreturned, hvalue]
  · rw [hfailed] at hvalue
    cases hvalue

end StaticChain

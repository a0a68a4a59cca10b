import StaticChain.Proofs.Effects
import StaticChain.Proofs.Lowered
import StaticChain.Proofs.Typing

/-!
# Calls by name

A machine is called by name, again and again (`Machine.Called`). A call that is not refused enters a
function at top level (`Machine.Enters`) and goes from state to state (`Machine.Reaches`). The states of a call
can be computed (`Machine.stateAt?`).
-/

namespace StaticChain

open Machine

variable {n : Nesting} {policy : FramePolicy} {m : Lir.Module}

/-- The machines that calls by name lead to, one after another. -/
inductive Machine.Called (m : Lir.Module) (maxSteps : Nat) : Machine → Prop
  | boot : Called m maxSteps (boot m maxSteps)
  | call {machine : Machine} (name : String) (args : List Int64) : Called m maxSteps machine →
      Called m maxSteps (machine.callByName name args).2

/-- A call by name passes the tests of entry points and starts. -/
structure Machine.Enters (machine : Machine) (name : String) (args : List Int64) (s : State) : Prop where
  found : machine.module.findFunction? name = some s.active.function
  free : s.active.function.hasContext = false
  ints : ∀ ty ∈ s.active.function.params, ty = .i64
  entered : Activation.enter s.active.function (args.map .int) none = .ok s.active
  callers_eq : s.callers = .empty
  store_eq : s.store = machine.store

/-- The states that a call by name leads to. -/
inductive Machine.Reaches (machine : Machine) : State → Prop
  | enter {name : String} {args : List Int64} {s : State} : machine.Enters name args s →
      Reaches machine s
  | step {s s' : State} : Reaches machine s → s.Step machine.module s' → Reaches machine s'

theorem Nesting.Lowers.function?_of_findFunction? (hm : n.Lowers policy m) {name : String}
    {f : Lir.Function} (h : m.findFunction? name = some f) : m.function? f.id = some f := by
  obtain ⟨i, hi, rfl⟩ := Array.getElem_of_mem (Array.mem_of_find?_eq_some h)
  have hget : m.function? ⟨i⟩ = some m.functions[i] := by simp [Lir.Module.function?, hi]
  exact hm.function?_id hget

/-- A call that finds its function and fits its parameters starts in it. -/
theorem Machine.enters_of_enter {machine : Machine} {name : String} {args : List Int64} {f : Lir.Function}
    {a : Activation} (hfind : machine.module.findFunction? name = some f) (hfree : f.hasContext = false)
    (hints : ∀ ty ∈ f.params, ty = .i64) (h : Activation.enter f (args.map .int) none = .ok a) :
    machine.Enters name args ⟨a, .empty, machine.store⟩ := by
  obtain rfl := (Activation.entered_of_enter h).function_eq
  exact ⟨hfind, hfree, hints, h, rfl, rfl⟩

/-- A call by name is refused and changes nothing, or enters its function and runs. -/
theorem Machine.callByName_cases {machine : Machine} (hm : n.Lowers policy machine.module)
    (name : String) (args : List Int64) :
    (∃ cause, machine.callByName name args = (.failed cause, machine)) ∨
      ∃ s, machine.Enters name args s ∧
        (machine.callByName name args).1 = (run machine.module machine.maxSteps
          (machine.maxSteps - machine.steps) s machine.steps).outcome ∧
        (machine.callByName name args).2 = { machine with
          store := (run machine.module machine.maxSteps (machine.maxSteps - machine.steps) s
            machine.steps).store
          steps := (run machine.module machine.maxSteps (machine.maxSteps - machine.steps) s
            machine.steps).steps } := by
  unfold callByName
  cases hfind : machine.module.findFunction? name with
  | none => exact .inl ⟨_, rfl⟩
  | some f =>
    simp only
    by_cases hc : f.hasContext = true
    · exact .inl ⟨_, by rw [if_pos hc]⟩
    by_cases hp : f.params.length ≠ args.length ∨ f.params.any (· != .i64) = true
    · exact .inl ⟨_, by rw [if_neg hc, if_pos hp]⟩
    rw [if_neg hc, if_neg hp]
    unfold Machine.call
    rw [hm.function?_of_findFunction? hfind]
    simp only
    cases he : Activation.enter f (args.map .int) none with
    | error cause => exact .inl ⟨_, rfl⟩
    | ok a =>
      simp only [ne_eq, not_or, Bool.not_eq_true, List.any_eq_false] at hp
      have hints : ∀ ty ∈ f.params, ty = .i64 := fun ty hty => by simpa using hp.2 ty hty
      exact .inr ⟨_, enters_of_enter hfind (Bool.eq_false_iff.2 hc) hints he, rfl, rfl⟩

theorem Machine.Called.module_eq {machine : Machine} {maxSteps : Nat} (hm : n.Lowers policy m)
    (h : Called m maxSteps machine) : machine.module = m ∧ machine.maxSteps = maxSteps := by
  induction h with
  | boot => exact ⟨rfl, rfl⟩
  | call name args _ ih =>
    have hlowers : n.Lowers policy _ := ih.1 ▸ hm
    rcases callByName_cases hlowers name args with ⟨cause, heq⟩ | ⟨s, -, -, heq⟩
    · rw [heq]
      exact ih
    · rw [heq]
      exact ih

/-! ## Computed states -/

/-- The first state of a call by name, if the call is not refused. -/
def Machine.start? (machine : Machine) (name : String) (args : List Int64) : Option State :=
  match machine.module.findFunction? name with
  | none => none
  | some f =>
    if f.hasContext || f.params.any (· != .i64) then none
    else
      match Activation.enter f (args.map .int) none with
      | .error _ => none
      | .ok a => some ⟨a, .empty, machine.store⟩

/-- The state so many steps later, if the call runs for so long. -/
def Machine.State.after? (m : Lir.Module) : Nat → State → Option State
  | 0, s => some s
  | k + 1, s =>
    match s.active.settle s.active.blocks with
    | .next inst blocks =>
      match (s.take blocks).step m inst with
      | .running s => after? m k s
      | .stopped _ _ => none
    | _ => none

/-- The state of a call by name after so many steps. -/
def Machine.stateAt? (machine : Machine) (name : String) (args : List Int64) (k : Nat) : Option State :=
  (machine.start? name args).bind (State.after? machine.module k)

theorem Machine.enters_of_start? {machine : Machine} {name : String} {args : List Int64} {s : State}
    (h : machine.start? name args = some s) : machine.Enters name args s := by
  unfold start? at h
  split at h
  · cases h
  rename_i f hfind
  split at h
  · cases h
  rename_i hentry
  split at h
  · cases h
  rename_i henter
  obtain rfl := Option.some.inj h
  simp only [Bool.or_eq_true, List.any_eq_true, not_or, not_exists, not_and, bne_iff_ne, ne_eq,
    Decidable.not_not, Bool.not_eq_true] at hentry
  exact enters_of_enter hfind hentry.1 hentry.2 henter

theorem Machine.State.steps_of_after? {k : Nat} {s s' : State} (h : s.after? m k = some s') :
    s.Steps m k s' := by
  induction k generalizing s with
  | zero =>
    obtain rfl := Option.some.inj h
    exact .refl s
  | succ k ih =>
    unfold after? at h
    split at h
    · rename_i inst blocks hsettle
      split at h
      · rename_i hstep
        exact .head ⟨inst, blocks, hsettle, hstep⟩ (ih h)
      · cases h
    · cases h

theorem Machine.Reaches.steps {machine : Machine} {k : Nat} {s s' : State} (h : machine.Reaches s)
    (hs : s.Steps machine.module k s') : machine.Reaches s' := by
  induction hs with
  | refl => exact h
  | head hstep _ ih => exact ih (h.step hstep)

theorem Machine.reaches_of_stateAt? {machine : Machine} {name : String} {args : List Int64} {k : Nat}
    {s : State} (h : machine.stateAt? name args k = some s) : machine.Reaches s := by
  obtain ⟨entry, hentry, hafter⟩ := Option.bind_eq_some_iff.1 h
  exact (Reaches.enter (enters_of_start? hentry)).steps (State.steps_of_after? hafter)

/-! ## A call in the scene -/

/-- The objects of the scene when the inner function has made its frame and a shape. Both are linked to the first
object, the frame of the outer function. -/
def sceneObjects : Array Object := #[
  { struct := ⟨0⟩, kind := .heap, slots := #[some (.int 3)], live := true },
  { struct := ⟨2⟩, kind := .heap, slots := #[some (.int 2), some (.object ⟨0⟩)], live := true },
  { struct := ⟨1⟩, kind := .heap, slots := #[some (.int 2), some (.object ⟨0⟩)], live := true }]

/-- A call of the scene comes to the inner function, and to all its objects. -/
theorem exists_reaches_scene : ∃ u n s, ({} : Settings).compile scene = .ok u ∧
    Nesting.of scene .escapeAnalysis = .ok n ∧ n.lower = .ok u.lir ∧ (boot u.lir 60).Reaches s ∧
    s.active.locals = #[some (.object ⟨0⟩), some (.int 2)] ∧ s.store.objects = sceneObjects := by
  obtain ⟨u, hu⟩ := exists_of_isOk (show (({} : Settings).compile scene).isOk = true by decide +kernel)
  obtain ⟨n, hn, hlower⟩ := Nesting.exists_of_compile hu
  have hstate : (({} : Settings).compile scene).toOption.any (fun u =>
      ((boot u.lir 60).stateAt? "scene" [3] 23).any fun s =>
        s.active.locals = #[some (.object ⟨0⟩), some (.int 2)] ∧ s.store.objects = sceneObjects) = true := by
    decide +kernel
  simp only [hu, Except.toOption, Option.any_some, Option.any_eq_true, decide_eq_true_eq] at hstate
  obtain ⟨s, hs, hlocals, hobjects⟩ := hstate
  exact ⟨u, n, s, hu, hn, hlower, reaches_of_stateAt? hs, hlocals, hobjects⟩

end StaticChain

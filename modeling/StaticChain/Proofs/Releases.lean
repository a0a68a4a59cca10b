import StaticChain.Proofs.Effects

/-!
# Stack objects end with their activations

The stack objects that are live are those that the activations of the running call still have to release,
each of them once (`Store.Due`). An allocation on the stack adds one to the innermost activation, a return
releases what the returning activation has, and whatever else ends a call releases what all of them have.
So nothing is due between calls (`Invoked.due`): the stack objects that were ever allocated are released,
and those on the heap are not.

Arguments are arbitrary: a call may be given numbers of objects that were released or never allocated.
-/

namespace StaticChain

open Lir (FunctionId StructId AllocKind)

namespace Machine

/-- The live stack objects are those that are due to be released, each of them once. -/
structure Store.Due (s : Store) (due : List ObjectId) : Prop where
  nodup : due.Nodup
  exists_stack : ∀ o ∈ due, ∃ object, s.objects[o.index]? = some object ∧ object.kind = .stack
  live_iff : ∀ (i : Nat) (object : Object), s.objects[i]? = some object →
    (object.live = true ↔ object.kind = .heap ∨ (⟨i⟩ : ObjectId) ∈ due)
  balance : s.stats.released + due.length = s.stats.stack

namespace Store

variable {s : Store} {due : List ObjectId}

theorem due_empty : Store.empty.Due [] := by
  constructor <;> simp [empty]

namespace Due

theorem lt_size (h : s.Due due) {o : ObjectId} (ho : o ∈ due) : o.index < s.objects.size := by
  obtain ⟨object, hget, -⟩ := h.exists_stack o ho
  exact (Array.getElem?_eq_some_iff.1 hget).1

/-- The number of the next object is not due yet. -/
theorem next_notMem (h : s.Due due) : s.next ∉ due :=
  fun hmem => Nat.lt_irrefl _ (h.lt_size hmem)

theorem allocateHeap (h : s.Due due) (struct : StructId) (slots : Nat) :
    (s.allocate struct .heap slots).Due due := by
  refine ⟨h.nodup, fun o ho => ?_, fun i object hget => ?_, h.balance⟩
  · rw [get?_allocate, if_neg (Nat.ne_of_lt (h.lt_size ho))]
    exact h.exists_stack o ho
  · rw [get?_allocate] at hget
    split at hget
    · cases hget
      simp
    · exact h.live_iff i object hget

theorem allocateStack (h : s.Due due) (struct : StructId) (slots : Nat) :
    (s.allocate struct .stack slots).Due (s.next :: due) := by
  refine ⟨List.nodup_cons.2 ⟨h.next_notMem, h.nodup⟩, fun o ho => ?_, fun i object hget => ?_, ?_⟩
  · rcases List.mem_cons.1 ho with rfl | ho
    · exact ⟨_, get?_next struct .stack slots, rfl⟩
    · rw [get?_allocate, if_neg (Nat.ne_of_lt (h.lt_size ho))]
      exact h.exists_stack o ho
  · rw [get?_allocate] at hget
    split at hget
    · rename_i hi
      cases hget
      simp [hi, next]
    · rename_i hi
      have hne : (⟨i⟩ : ObjectId) ≠ s.next := fun heq => hi (congrArg ObjectId.index heq)
      simp [h.live_iff i object hget, hne]
  · have hbalance := h.balance
    simp only [allocate, Stats.allocated, List.length_cons]
    omega

/-- A write changes slots only. -/
theorem set (h : s.Due due) (o : ObjectId) (slot : Nat) (value : Value) : (s.set o slot value).Due due := by
  refine ⟨h.nodup, fun o' ho => ?_, fun i object hget => ?_, h.balance⟩
  · obtain ⟨object, hget, hkind⟩ := h.exists_stack o' ho
    rw [get?_set, hget]
    split
    · exact ⟨_, rfl, hkind⟩
    · exact ⟨_, rfl, hkind⟩
  · rw [get?_set] at hget
    split at hget
    · obtain ⟨before, hbefore, rfl⟩ := Option.map_eq_some_iff.1 hget
      exact h.live_iff i before hbefore
    · exact h.live_iff i object hget

/-- What is released is not due any more. -/
theorem release {o : ObjectId} (h : s.Due (o :: due)) : (s.release o).Due due := by
  obtain ⟨hnot, hnodup⟩ := List.nodup_cons.1 h.nodup
  obtain ⟨object, hobject, hstack⟩ := h.exists_stack o List.mem_cons_self
  have hlive : object.live = true := (h.live_iff o.index object hobject).2 (.inr List.mem_cons_self)
  refine ⟨hnodup, fun o' ho => ?_, fun i object' hget => ?_, ?_⟩
  · obtain ⟨object', hget, hkind⟩ := h.exists_stack o' (List.mem_cons_of_mem _ ho)
    rw [get?_release, hget]
    split
    · exact ⟨_, rfl, hkind⟩
    · exact ⟨_, rfl, hkind⟩
  · rw [get?_release] at hget
    split at hget
    · rename_i hi
      subst hi
      rw [hobject] at hget
      cases hget
      simp [hstack, hnot]
    · rename_i hi
      have hne : (⟨i⟩ : ObjectId) ≠ o := fun heq => hi (congrArg ObjectId.index heq).symm
      simp [h.live_iff i object' hget, hne]
  · have hbalance := h.balance
    have hisLive : s.isLive o = true := by simp [isLive, hobject, hlive]
    simp only [Store.release, hisLive, if_true, List.length_cons] at hbalance ⊢
    omega

theorem releaseAll {ids : List ObjectId} (h : s.Due (ids ++ due)) : (s.releaseAll ids).Due due := by
  induction ids generalizing s with
  | nil => exact h
  | cons id ids ih => exact ih h.release

end Due

end Store

/-! ## Runs -/

/-- What the activations have allocated on the stack is due to be released. -/
def State.Due (s : State) : Prop := s.store.Due (reachOf (s.active :: s.callers.waiting))

variable {m : Lir.Module} {s s' : State}

/-- Whatever an instruction does, what is due stays with the activations. -/
theorem State.Due.moves {effect : Effect} (h : s.Due) (hmoves : State.Moves m s effect s') : s'.Due := by
  unfold State.Due at h ⊢
  cases hmoves with
  | allocateHeap => exact h.allocateHeap _ _
  | allocateStack => exact h.allocateStack _ _
  | write => exact h.set _ _ _
  | call _ _ henter =>
    rw [reachOf_cons, (Activation.entered_of_enter henter).owned_eq]
    exact h
  | ret =>
    rw [reachOf_cons] at h
    exact h.releaseAll
  | retValue =>
    rw [reachOf_cons] at h
    exact h.releaseAll
  | _ => exact h

theorem State.Due.unwind (h : s.Due) : s.unwind.Due [] := by
  rw [State.unwind_eq]
  exact Store.Due.releaseAll (by simpa [State.Due] using h)

/-- However a run ends, nothing is due any more. -/
theorem State.Due.run (h : s.Due) (maxSteps left steps : Nat) :
    (run m maxSteps left s steps).store.Due [] := by
  induction left generalizing s steps with
  | zero =>
    unfold Machine.run
    cases s.active.settle s.active.blocks <;> exact h.unwind
  | succ left ih =>
    unfold Machine.run
    cases s.active.settle s.active.blocks with
    | fault cause => exact h.unwind
    | stuck => exact h.unwind
    | next inst blocks =>
      have htaken : (s.take blocks).Due := h
      simp only
      cases hstep : (s.take blocks).step m inst with
      | stopped outcome store =>
        rw [State.store_of_stopped hstep]
        exact htaken.unwind
      | running s' =>
        obtain ⟨effect, -, hmoves⟩ := State.step_eq_running hstep
        exact ih (htaken.moves hmoves) _

/-! ## Calls -/

/-- A call from outside leaves nothing due, whatever it is given. -/
theorem call_due {machine : Machine} (h : machine.store.Due []) (id : FunctionId) (args : List Value) :
    (machine.call id args).2.store.Due [] := by
  obtain ⟨m, maxSteps, store, steps⟩ := machine
  unfold Machine.call
  cases m.function? id with
  | none => exact h
  | some f =>
    cases henter : Activation.enter f args none with
    | error cause => simpa only [henter] using h
    | ok a =>
      have hstart : State.Due ⟨a, .empty, store⟩ := by
        simpa [State.Due, (Activation.entered_of_enter henter).owned_eq, CallStack.empty, reachOf] using h
      simp only [henter]
      exact hstart.run _ _ _

theorem callByName_due {machine : Machine} (h : machine.store.Due []) (name : String) (args : List Int64) :
    (machine.callByName name args).2.store.Due [] := by
  unfold callByName
  split
  · exact h
  · split
    · exact h
    · split
      · exact h
      · exact call_due h _ _

/-- The machines that calls lead to, one after another, by number and by name. Every call has ended. -/
inductive Invoked (m : Lir.Module) (maxSteps : Nat) : Machine → Prop
  | boot : Invoked m maxSteps (boot m maxSteps)
  | call {machine : Machine} (id : FunctionId) (args : List Value) : Invoked m maxSteps machine →
      (machine.call id args).1 ≠ .diverged → Invoked m maxSteps (machine.call id args).2
  | callByName {machine : Machine} (name : String) (args : List Int64) : Invoked m maxSteps machine →
      (machine.callByName name args).1 ≠ .diverged → Invoked m maxSteps (machine.callByName name args).2

variable {machine : Machine} {maxSteps : Nat}

theorem Invoked.due (h : Invoked m maxSteps machine) : machine.store.Due [] := by
  induction h with
  | boot => exact Store.due_empty
  | call id args _ _ ih => exact call_due ih id args
  | callByName name args _ _ ih => exact callByName_due ih name args

/-- When a call has ended, with a result or with a fault, as many objects are released as were ever
allocated on the stack. Those are not live, and the objects on the heap are. -/
theorem released_eq_stack (h : Invoked m maxSteps machine) :
    machine.store.stats.released = machine.store.stats.stack ∧
      ∀ object ∈ machine.store.objects, object.live = true ↔ object.kind = .heap := by
  refine ⟨by simpa using h.due.balance, fun object hmem => ?_⟩
  obtain ⟨i, hget⟩ := Array.getElem?_of_mem hmem
  simpa using h.due.live_iff i object hget

/-- Two functions with an object on the stack each. The first one has another one on the heap and calls the
second one, which divides by what it is given. -/
def spill : Lir.Module where
  structs := #[⟨⟨0⟩, "cell", ⟨0⟩, [.i64]⟩]
  functions := #[{
    id := ⟨0⟩
    name := "outer"
    decl := ⟨0⟩
    hasContext := false
    params := [.i64]
    ret := some .i64
    locals := #[.i64]
    valueTypes := #[.ptr, .ptr, .i64, .i64]
    body := [.alloc ⟨0⟩ ⟨0⟩ .stack, .alloc ⟨1⟩ ⟨0⟩ .heap, .localGet ⟨2⟩ ⟨0⟩,
      .call (some ⟨3⟩) ⟨1⟩ [⟨2⟩], .ret (some ⟨3⟩)] }, {
    id := ⟨1⟩
    name := "inner"
    decl := ⟨1⟩
    hasContext := false
    params := [.i64]
    ret := some .i64
    locals := #[.i64]
    valueTypes := #[.ptr, .i64, .i64, .i64]
    body := [.alloc ⟨0⟩ ⟨0⟩ .stack, .const ⟨1⟩ 10, .localGet ⟨2⟩ ⟨0⟩, .binary ⟨3⟩ .div ⟨1⟩ ⟨2⟩,
      .ret (some ⟨3⟩)] }]

/-- A division by zero two activations deep, a call that returns, one that is given a released object, and
one for which the budget is too small. -/
theorem released_eq_stack_spill : ∃ machine : Machine, Invoked spill 28 machine ∧
    machine.store.stats = ⟨3, 7, 7⟩ ∧
    (machine.store.stats.released = machine.store.stats.stack ∧
      ∀ object ∈ machine.store.objects, object.live = true ↔ object.kind = .heap) := by
  have h₁ : Invoked spill 28 _ := .callByName "outer" [0] .boot (by decide +kernel)
  have h₂ : Invoked spill 28 _ := .callByName "outer" [5] h₁ (by decide +kernel)
  have h₃ : Invoked spill 28 _ := .call ⟨1⟩ [.object ⟨0⟩] h₂ (by decide +kernel)
  have h₄ : Invoked spill 28 _ := .callByName "outer" [5] h₃ (by decide +kernel)
  exact ⟨_, h₄, by decide +kernel, released_eq_stack h₄⟩

end Machine

end StaticChain

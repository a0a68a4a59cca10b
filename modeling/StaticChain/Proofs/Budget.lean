import StaticChain.Proofs.Effects

/-!
# The budget of runs

A run goes through iterations. In each the innermost open block is closed, if it is at its end, or its next
instruction is executed; only instructions are charged to the budget (`loop`). `Machine.run` tells in one step
where a row of closings ends, and it agrees with the iterations (`exists_loop_iff`).

Whatever the module is, no more instructions are executed than the budget has steps, over all calls of a
machine together. That a call ends is another matter: a loop without any instruction goes round for nothing
(`not_callEnds_idle`). Where every loop has an instruction (`Lir.Module.LoopsSpend`), every call ends
(`call_within_budget`).
-/

namespace StaticChain

open Lir (FunctionId ValueId Inst)

namespace Machine

/-! ## Iterations -/

/-- The open blocks after the innermost one is closed at its end. -/
def Activation.close (a : Activation) (outer : List Block) : BlockKind → Except Fault (List Block)
  | .straight => .ok outer
  | .header loop =>
    match a.int loop.condition with
    | .error fault => .error fault
    | .ok condition => if condition = 0 then .ok outer else .ok (⟨loop.body, .body loop⟩ :: outer)
  | .body loop => .ok (⟨loop.header, .header loop⟩ :: outer)

/-- The result of a call that ends within so many iterations, with the number of instructions that it
executed. Both counts go on from where they stand. -/
def loop (m : Lir.Module) (maxSteps : Nat) :
    (iterations : Nat) → State → (steps executed : Nat) → Option (Result × Nat)
  | 0, _, _, _ => none
  | k + 1, s, steps, executed =>
    match s.active.blocks with
    | [] => some (⟨.failed (.bodyEnded s.active.function.name), s.unwind, steps⟩, executed)
    | ⟨inst :: rest, kind⟩ :: outer =>
      if maxSteps < steps + 1 then
        some (⟨.failed (.budgetExhausted maxSteps s.active.function.name), s.unwind, steps + 1⟩, executed)
      else
        match (s.take (⟨rest, kind⟩ :: outer)).step m inst with
        | .stopped outcome store => some (⟨outcome, store, steps + 1⟩, executed + 1)
        | .running s => loop m maxSteps k s (steps + 1) (executed + 1)
    | ⟨[], kind⟩ :: outer =>
      match s.active.close outer kind with
      | .error fault => some (⟨.failed fault, s.unwind, steps⟩, executed)
      | .ok blocks => loop m maxSteps k (s.take blocks) steps executed

variable {m : Lir.Module} {maxSteps k j steps executed : Nat} {s : State} {r : Result}

/-- Instructions are counted one by one and fit into what is left of the budget. -/
theorem loop_executed {total : Nat} (h : loop m maxSteps k s steps executed = some (r, total)) :
    executed ≤ total ∧ steps + (total - executed) ≤ r.steps ∧ total - executed ≤ maxSteps - steps := by
  induction k generalizing s steps executed with
  | zero => cases h
  | succ k ih =>
    unfold loop at h
    split at h
    · cases h
      simp
    · split at h
      · cases h
        simp
      rename_i hbudget
      split at h
      · cases h
        simp only
        omega
      · have := ih h
        omega
    · split at h
      · cases h
        simp
      · exact ih h

/-- A run that ended is not changed by more iterations. -/
theorem loop_mono {a : Result × Nat} (h : loop m maxSteps k s steps executed = some a) (hk : k ≤ j) :
    loop m maxSteps j s steps executed = some a := by
  induction k generalizing j s steps executed with
  | zero => cases h
  | succ k ih =>
    obtain ⟨j, rfl⟩ : ∃ i, j = i + 1 := ⟨j - 1, by omega⟩
    have hk : k ≤ j := Nat.le_of_succ_le_succ hk
    unfold loop at h ⊢
    split at h
    · exact h
    · split at h
      · rwa [if_pos ‹_›]
      · rw [if_neg ‹_›]
        split at h
        · exact h
        · exact ih h hk
    · split at h
      · exact h
      · exact ih h hk

/-! ## Closing blocks -/

@[simp] theorem State.take_active (s : State) (blocks : List Block) :
    (s.take blocks).active = { s.active with blocks } := rfl

@[simp] theorem State.take_take (s : State) (blocks blocks' : List Block) :
    (s.take blocks).take blocks' = s.take blocks' := rfl

@[simp] theorem State.unwind_take (s : State) (blocks : List Block) : (s.take blocks).unwind = s.unwind := rfl

theorem Activation.close_withBlocks (a : Activation) (blocks outer : List Block) (kind : BlockKind) :
    { a with blocks }.close outer kind = a.close outer kind := by
  cases kind <;> rfl

theorem loop_close {outer blocks : List Block} {kind : BlockKind} (h : s.active.close outer kind = .ok blocks) :
    loop m maxSteps (k + 1) (s.take (⟨[], kind⟩ :: outer)) steps executed =
      loop m maxSteps k (s.take blocks) steps executed := by
  rw [loop]
  simp [Activation.close_withBlocks, h]

theorem loop_close_error {outer : List Block} {kind : BlockKind} {fault : Fault}
    (h : s.active.close outer kind = .error fault) :
    loop m maxSteps (k + 1) (s.take (⟨[], kind⟩ :: outer)) steps executed =
      some (⟨.failed fault, s.unwind, steps⟩, executed) := by
  rw [loop]
  simp [Activation.close_withBlocks, h]

/-- The iterations from some open blocks on come to a position: after finitely many closings they are at an
instruction, or end with a fault, and where there is no position they never end. -/
def Arrives (m : Lir.Module) (maxSteps : Nat) (s : State) (steps executed : Nat) (blocks : List Block) :
    Position → Prop
  | .next inst after => ∃ k rest kind outer, after = ⟨rest, kind⟩ :: outer ∧ ∀ j,
      loop m maxSteps (j + k) (s.take blocks) steps executed =
        loop m maxSteps j (s.take (⟨inst :: rest, kind⟩ :: outer)) steps executed
  | .fault fault => ∃ k, loop m maxSteps k (s.take blocks) steps executed =
      some (⟨.failed fault, s.unwind, steps⟩, executed)
  | .stuck => ∀ k, loop m maxSteps k (s.take blocks) steps executed = none

/-- One more closing before. -/
theorem Arrives.close {outer blocks : List Block} {kind : BlockKind} {position : Position}
    (hclose : s.active.close outer kind = .ok blocks)
    (h : Arrives m maxSteps s steps executed blocks position) :
    Arrives m maxSteps s steps executed (⟨[], kind⟩ :: outer) position := by
  cases position with
  | next inst after =>
    obtain ⟨k, rest, kind, outer, rfl, h⟩ := h
    exact ⟨k + 1, rest, kind, outer, rfl, fun j => by rw [← Nat.add_assoc, loop_close hclose, h]⟩
  | fault fault =>
    obtain ⟨k, h⟩ := h
    exact ⟨k + 1, by rw [loop_close hclose, h]⟩
  | stuck =>
    intro k
    cases k with
    | zero => rfl
    | succ k => rw [loop_close hclose, h]

theorem arrives_next (inst : Inst) (rest : List Inst) (kind : BlockKind) (outer : List Block) :
    Arrives m maxSteps s steps executed (⟨inst :: rest, kind⟩ :: outer) (.next inst (⟨rest, kind⟩ :: outer)) :=
  ⟨0, rest, kind, outer, rfl, fun _ => rfl⟩

theorem Activation.close_header {a : Activation} {code : LoopCode} {condition : Int64}
    (h : a.int code.condition = .ok condition) (outer : List Block) : a.close outer (.header code) =
      .ok (if condition = 0 then outer else ⟨code.body, .body code⟩ :: outer) := by
  simp only [close, h]
  split <;> rfl

/-- Where the condition holds, the next round comes to its first instruction, or goes on forever. -/
theorem arrives_round {code : LoopCode} {condition : Int64} (h : s.active.int code.condition = .ok condition)
    (hne : condition ≠ 0) (outer : List Block) :
    Arrives m maxSteps s steps executed (⟨code.body, .body code⟩ :: outer) (code.round outer) := by
  obtain ⟨header, id, body⟩ := code
  have hbody : s.active.close outer (.body ⟨header, id, body⟩) =
      .ok (⟨header, .header ⟨header, id, body⟩⟩ :: outer) := rfl
  have hheader := Activation.close_header h outer
  rw [if_neg hne] at hheader
  cases body with
  | cons inst rest => exact arrives_next inst rest _ outer
  | nil =>
    cases header with
    | cons inst rest => exact (arrives_next inst rest _ outer).close hbody
    | nil =>
      -- Header and body take turns: neither spends anything.
      have hboth : ∀ k, loop m maxSteps k (s.take (⟨[], .body ⟨[], id, []⟩⟩ :: outer)) steps executed = none ∧
          loop m maxSteps k (s.take (⟨[], .header ⟨[], id, []⟩⟩ :: outer)) steps executed = none := by
        intro k
        induction k with
        | zero => exact ⟨rfl, rfl⟩
        | succ k ih =>
          rw [loop_close hbody, loop_close hheader]
          exact ⟨ih.2, ih.1⟩
      exact fun k => (hboth k).1

/-- Closing blocks one by one leads to where they are found to lead to. -/
theorem arrives_settle (blocks : List Block) :
    Arrives m maxSteps s steps executed blocks (s.active.settle blocks) := by
  induction blocks with
  | nil => exact ⟨1, rfl⟩
  | cons block outer ih =>
    obtain ⟨rest, kind⟩ := block
    cases rest with
    | cons inst rest => exact arrives_next inst rest kind outer
    | nil =>
      have hheader : ∀ code : LoopCode, Arrives m maxSteps s steps executed (⟨[], .header code⟩ :: outer)
          (match s.active.int code.condition with
            | .error fault => .fault fault
            | .ok condition =>
              if condition = 0 then s.active.settle outer else code.round outer) := by
        intro code
        cases hint : s.active.int code.condition with
        | error fault => exact ⟨1, loop_close_error (by simp [Activation.close, hint])⟩
        | ok condition =>
          have hclose := Activation.close_header hint outer
          by_cases hzero : condition = 0
          · rw [if_pos hzero] at hclose
            simpa only [if_pos hzero] using ih.close hclose
          · rw [if_neg hzero] at hclose
            simpa only [if_neg hzero] using (arrives_round hint hzero outer).close hclose
      cases kind with
      | straight => exact ih.close rfl
      | header code => exact hheader code
      | body code =>
        have hclose : s.active.close outer (.body code) = .ok (⟨code.header, .header code⟩ :: outer) := rfl
        obtain ⟨header, id, body⟩ := code
        cases header with
        | cons inst rest => exact (arrives_next inst rest _ outer).close hclose
        | nil => exact (hheader ⟨[], id, body⟩).close hclose

/-! ## Runs -/

/-- Instructions stop a call with a value or with a fault. -/
theorem State.step_ne_diverged {inst : Inst} {outcome : Outcome} {store : Store}
    (h : s.step m inst = .stopped outcome store) : outcome ≠ .diverged := by
  rintro rfl
  unfold State.step at h
  split at h
  · cases h
  obtain ⟨active, ⟨waiting, depth, hdepth⟩, store'⟩ := s
  rename_i effect _
  cases effect with
  | allocate _ _ kind _ => cases kind <;> cases h
  | call dest function args =>
    simp only [State.apply, State.call] at h
    split at h
    · cases h
    · split at h
      · cases h
      · split at h <;> cases h
  | ret value =>
    simp only [State.apply, State.ret] at h
    split at h
    · cases h
    · split at h <;> cases h
  | _ => cases h

/-- How the iterations end that a run stands for: after finitely many, or never. -/
def Ends (m : Lir.Module) (maxSteps : Nat) (s : State) (steps executed : Nat) (r : Result) : Prop :=
  (r.outcome = .diverged ∧ ∀ k, loop m maxSteps k s steps executed = none) ∨
    (r.outcome ≠ .diverged ∧ ∃ k total, loop m maxSteps k s steps executed = some (r, total))

theorem ends_run {left : Nat} (hleft : left = maxSteps - steps) :
    Ends m maxSteps s steps executed (run m maxSteps left s steps) := by
  induction left using Nat.strongRecOn generalizing s steps executed with
  | ind left ih =>
    have harrives : Arrives m maxSteps s steps executed s.active.blocks (s.active.settle s.active.blocks) :=
      arrives_settle _
    unfold run
    cases hsettle : s.active.settle s.active.blocks with
    | fault fault =>
      rw [hsettle] at harrives
      obtain ⟨k, hk⟩ := harrives
      exact .inr ⟨nofun, k, _, hk⟩
    | stuck =>
      rw [hsettle] at harrives
      exact .inl ⟨rfl, harrives⟩
    | next inst blocks =>
      rw [hsettle] at harrives
      obtain ⟨k, rest, kind, outer, rfl, harrives⟩ := harrives
      -- The iteration that follows the closings takes the instruction, if the budget has a step for it.
      have hnext : ∀ j, loop m maxSteps (j + 1 + k) s steps executed =
          if maxSteps < steps + 1 then
            some (⟨.failed (.budgetExhausted maxSteps s.active.function.name), s.unwind, steps + 1⟩, executed)
          else
            match (s.take (⟨rest, kind⟩ :: outer)).step m inst with
            | .stopped outcome store => some (⟨outcome, store, steps + 1⟩, executed + 1)
            | .running s => loop m maxSteps j s (steps + 1) (executed + 1) :=
        fun j => (harrives (j + 1)).trans rfl
      cases left with
      | zero =>
        refine .inr ⟨nofun, _, executed, (hnext 0).trans ?_⟩
        rw [if_pos (by omega)]
      | succ left =>
        have hbudget : ¬maxSteps < steps + 1 := by omega
        simp only [if_neg hbudget] at hnext
        simp only
        cases hstep : (s.take (⟨rest, kind⟩ :: outer)).step m inst with
        | stopped outcome store =>
          simp only [hstep] at hnext
          exact .inr ⟨State.step_ne_diverged hstep, _, _, hnext 0⟩
        | running s' =>
          simp only [hstep] at hnext
          have hrest : Ends m maxSteps s' (steps + 1) (executed + 1) (run m maxSteps left s' (steps + 1)) :=
            ih left (Nat.lt_succ_self left) (by omega)
          rcases hrest with ⟨hdiverged, hnone⟩ | ⟨hends, j, total, hj⟩
          · refine .inl ⟨hdiverged, fun j => ?_⟩
            cases hj : loop m maxSteps j s steps executed with
            | none => rfl
            | some a =>
              have hmore := loop_mono hj (Nat.le_trans (Nat.le_add_right j 1) (Nat.le_add_right _ k))
              rw [hnext, hnone] at hmore
              cases hmore
          · exact .inr ⟨hends, _, total, (hnext j).trans hj⟩

/-- The iterations end just if the run does, and then with its result. -/
theorem exists_loop_iff : (∃ k total, loop m maxSteps k s steps executed = some (r, total)) ↔
    run m maxSteps (maxSteps - steps) s steps = r ∧ r.outcome ≠ .diverged := by
  constructor
  · rintro ⟨k, total, hk⟩
    have hends : Ends m maxSteps s steps executed (run m maxSteps (maxSteps - steps) s steps) := ends_run rfl
    rcases hends with ⟨-, hnone⟩ | ⟨hne, j, total', hj⟩
    · rw [hnone] at hk
      cases hk
    · have hk := loop_mono hk (Nat.le_max_left k j)
      rw [loop_mono hj (Nat.le_max_right k j)] at hk
      cases hk
      exact ⟨rfl, hne⟩
  · rintro ⟨rfl, hne⟩
    exact (ends_run rfl).elim (fun h => absurd h.1 hne) And.right

end Machine

/-! ## Loops that spend -/

/-- A loop that goes round spends a step of the budget. -/
def Lir.Inst.spends : Inst → Bool
  | .loop header _ body => !header.isEmpty || !body.isEmpty
  | _ => true

/-- Every loop of the module has an instruction. -/
def Lir.Module.LoopsSpend (m : Lir.Module) : Prop :=
  ∀ f ∈ m.functions.toList, ∀ inst ∈ Lir.allInsts f.body, inst.spends = true

instance (m : Lir.Module) : Decidable m.LoopsSpend :=
  inferInstanceAs (Decidable (∀ f ∈ m.functions.toList, ∀ inst ∈ Lir.allInsts f.body, inst.spends = true))

namespace Machine

variable {m : Lir.Module} {P : Inst → Prop}

/-- The instructions of an open block and of the loop around it satisfy a predicate. -/
def Block.All (P : Inst → Prop) (block : Block) : Prop :=
  (∀ inst ∈ Lir.allInsts block.rest, P inst) ∧
    match block.kind with
    | .straight => True
    | .header code => ∀ inst ∈ (Inst.loop code.header code.condition code.body).withNested, P inst
    | .body code => ∀ inst ∈ (Inst.loop code.header code.condition code.body).withNested, P inst

/-- The instructions of all open blocks of all activations satisfy a predicate. -/
structure State.All (P : Inst → Prop) (s : State) : Prop where
  active : ∀ block ∈ s.active.blocks, block.All P
  waiting : ∀ a ∈ s.callers.waiting, ∀ block ∈ a.blocks, block.All P

/-- What the code of a loop satisfies, its header and its body do. -/
theorem Block.all_loop {header body : List Inst} {condition : ValueId}
    (h : ∀ inst ∈ (Inst.loop header condition body).withNested, P inst) :
    Block.All P ⟨header, .header ⟨header, condition, body⟩⟩ ∧
      Block.All P ⟨body, .body ⟨header, condition, body⟩⟩ := by
  refine ⟨⟨fun inst hi => h inst ?_, h⟩, ⟨fun inst hi => h inst ?_, h⟩⟩ <;>
    simp [Inst.withNested, hi]

theorem Block.all_cons {inst : Inst} {rest : List Inst} {kind : BlockKind}
    (h : Block.All P ⟨inst :: rest, kind⟩) : (∀ i ∈ inst.withNested, P i) ∧ Block.All P ⟨rest, kind⟩ := by
  refine ⟨fun i hi => h.1 i ?_, fun i hi => h.1 i ?_, h.2⟩ <;> simp [Lir.allInsts, hi]

/-- A position that is in code of which a predicate holds. -/
def Position.All (P : Inst → Prop) : Position → Prop
  | .next inst blocks => (∀ i ∈ inst.withNested, P i) ∧ ∀ block ∈ blocks, block.All P
  | .fault _ => True
  | .stuck => ∃ condition, P (.loop [] condition [])

theorem LoopCode.round_all {code : LoopCode} {outer : List Block}
    (h : ∀ inst ∈ (Inst.loop code.header code.condition code.body).withNested, P inst)
    (houter : ∀ block ∈ outer, block.All P) : (code.round outer).All P := by
  obtain ⟨header, condition, body⟩ := code
  have hall := Block.all_loop h
  cases body with
  | cons inst rest =>
    have hcons := Block.all_cons hall.2
    exact ⟨hcons.1, List.forall_mem_cons.2 ⟨hcons.2, houter⟩⟩
  | nil =>
    cases header with
    | cons inst rest =>
      have hcons := Block.all_cons hall.1
      exact ⟨hcons.1, List.forall_mem_cons.2 ⟨hcons.2, houter⟩⟩
    | nil => exact ⟨condition, h _ (by simp [Inst.withNested])⟩

/-- Closing blocks leads to code of the same blocks. -/
theorem Activation.settle_all (a : Activation) {blocks : List Block} (h : ∀ block ∈ blocks, block.All P) :
    (a.settle blocks).All P := by
  induction blocks with
  | nil => trivial
  | cons block outer ih =>
    obtain ⟨hblock, houter⟩ := List.forall_mem_cons.1 h
    obtain ⟨rest, kind⟩ := block
    cases rest with
    | cons inst rest =>
      have hcons := Block.all_cons hblock
      exact ⟨hcons.1, List.forall_mem_cons.2 ⟨hcons.2, houter⟩⟩
    | nil =>
      cases kind with
      | straight => exact ih houter
      | header code =>
        simp only [settle]
        split
        · trivial
        · split
          · exact ih houter
          · exact LoopCode.round_all hblock.2 houter
      | body code =>
        simp only [settle]
        split
        · rename_i inst rest hheader
          have hall := (Block.all_loop hblock.2).1
          obtain ⟨header, condition, body⟩ := code
          simp only at hheader
          subst hheader
          have hcons := Block.all_cons hall
          exact ⟨hcons.1, List.forall_mem_cons.2 ⟨hcons.2, houter⟩⟩
        · split
          · trivial
          · split
            · exact ih houter
            · exact LoopCode.round_all hblock.2 houter

/-- The block that an instruction opens is made of its parts. -/
theorem Activation.Does.all_block {a : Activation} {store : Store} {inst : Inst} {block : Block}
    (h : a.Does m store inst (.enter block)) (hi : ∀ i ∈ inst.withNested, P i) : block.All P := by
  cases h with
  | @branch condition thenBody elseBody x =>
    refine ⟨fun i hmem => hi i ?_, trivial⟩
    simp only at hmem
    split at hmem <;> simp [Inst.withNested, hmem]
  | loop => exact (Block.all_loop hi).1

/-- The code of functions stays what is run. -/
theorem State.All.moves {s s' : State} {inst : Inst} {effect : Effect}
    (hm : ∀ f ∈ m.functions.toList, ∀ inst ∈ Lir.allInsts f.body, P inst) (h : s.All P)
    (hi : ∀ i ∈ inst.withNested, P i) (hdoes : s.active.Does m s.store inst effect)
    (hmoves : State.Moves m s effect s') : s'.All P := by
  cases hmoves with
  | enter => exact ⟨List.forall_mem_cons.2 ⟨hdoes.all_block hi, h.active⟩, h.waiting⟩
  | @call a callee c store dest target f args hdepth hf he =>
    refine ⟨?_, List.forall_mem_cons.2 ⟨h.active, h.waiting⟩⟩
    have hmem : f ∈ m.functions.toList := by
      obtain ⟨hlt, rfl⟩ := Array.getElem?_eq_some_iff.1 hf
      simp
    rw [(Activation.entered_of_enter he).blocks_eq]
    exact List.forall_mem_singleton.2 ⟨hm f hmem, trivial⟩
  | ret | retValue => exact List.forall_mem_cons.1 h.waiting |>.elim fun hc hw => ⟨hc, hw⟩
  | _ => exact ⟨h.active, h.waiting⟩

/-- Where every loop has an instruction, no run goes on forever. -/
theorem run_ne_diverged (hm : m.LoopsSpend) {maxSteps left steps : Nat} {s : State}
    (h : s.All (Inst.spends · = true)) : (run m maxSteps left s steps).outcome ≠ .diverged := by
  induction left using Nat.strongRecOn generalizing s steps with
  | ind left ih =>
    have hall := s.active.settle_all h.active
    unfold run
    cases hsettle : s.active.settle s.active.blocks with
    | fault fault => nofun
    | stuck =>
      rw [hsettle] at hall
      obtain ⟨condition, hspends⟩ := hall
      cases hspends
    | next inst blocks =>
      rw [hsettle] at hall
      cases left with
      | zero => nofun
      | succ left =>
        simp only
        cases hstep : (s.take blocks).step m inst with
        | stopped outcome store => exact State.step_ne_diverged hstep
        | running s' =>
          obtain ⟨effect, hdoes, hmoves⟩ := State.step_eq_running hstep
          have htaken : (s.take blocks).All (Inst.spends · = true) := ⟨hall.2, h.waiting⟩
          exact ih left (Nat.lt_succ_self left) (htaken.moves hm hall.1 hdoes hmoves)

/-! ## Calls -/

/-- A call that ends: it is refused, or its iterations end. The number is that of the instructions it
executed. -/
inductive CallEnds (machine : Machine) (id : FunctionId) (args : List Value) :
    Outcome → Machine → Nat → Prop
  | unknown : machine.module.function? id = none →
      CallEnds machine id args (.failed (.functionUnknown id)) machine 0
  | refused {f : Lir.Function} {fault : Fault} : machine.module.function? id = some f →
      Activation.enter f args none = .error fault → CallEnds machine id args (.failed fault) machine 0
  | ended {f : Lir.Function} {a : Activation} {iterations executed : Nat} {r : Result} :
      machine.module.function? id = some f → Activation.enter f args none = .ok a →
      loop machine.module machine.maxSteps iterations ⟨a, .empty, machine.store⟩ machine.steps 0 =
        some (r, executed) →
      CallEnds machine id args r.outcome { machine with store := r.store, steps := r.steps } executed

/-- The machines that calls lead to, one after another, with the number of instructions that they executed
together. -/
inductive Spent (m : Lir.Module) (maxSteps : Nat) : Machine → Nat → Prop
  | boot : Spent m maxSteps (boot m maxSteps) 0
  | call {machine next : Machine} {spent executed : Nat} {id : FunctionId} {args : List Value}
      {outcome : Outcome} : Spent m maxSteps machine spent →
      CallEnds machine id args outcome next executed → Spent m maxSteps next (spent + executed)

variable {machine next : Machine} {id : FunctionId} {args : List Value} {outcome : Outcome}
  {maxSteps spent executed : Nat}

theorem CallEnds.kept (h : CallEnds machine id args outcome next executed) :
    next.module = machine.module ∧ next.maxSteps = machine.maxSteps ∧
      machine.steps + executed ≤ next.steps ∧ executed ≤ machine.maxSteps - machine.steps := by
  cases h with
  | unknown | refused => simp
  | ended _ _ hloop =>
    have hcount := loop_executed hloop
    simp only [Nat.sub_zero] at hcount
    exact ⟨rfl, rfl, hcount.2.1, hcount.2.2⟩

/-- What was executed was counted, and is within the budget. -/
theorem Spent.within (h : Spent m maxSteps machine spent) :
    machine.module = m ∧ machine.maxSteps = maxSteps ∧ spent ≤ machine.steps ∧ spent ≤ maxSteps := by
  induction h with
  | boot => exact ⟨rfl, rfl, Nat.le_refl 0, Nat.zero_le _⟩
  | call _ hcall ih =>
    obtain ⟨rfl, rfl, hsteps, hspent⟩ := ih
    obtain ⟨hmodule, hmax, hcount, hexecuted⟩ := hcall.kept
    exact ⟨hmodule, hmax, by omega, by omega⟩

/-- A call ends as the machine tells, if the machine does not tell that it goes on forever. -/
theorem exists_callEnds_iff : (∃ executed, CallEnds machine id args outcome next executed) ↔
    machine.call id args = (outcome, next) ∧ outcome ≠ .diverged := by
  obtain ⟨m, maxSteps, store, steps⟩ := machine
  unfold Machine.call
  constructor
  · rintro ⟨executed, h⟩
    cases h with
    | unknown hf =>
      simp only at hf
      simp [hf]
    | refused hf ha =>
      simp only at hf
      simp [hf, ha]
    | ended hf ha hloop =>
      simp only at hf hloop
      obtain ⟨rfl, hne⟩ := exists_loop_iff.1 ⟨_, _, hloop⟩
      simp [hf, ha, hne]
  · rintro ⟨h, hne⟩
    cases hf : m.function? id with
    | none =>
      simp only [hf] at h
      cases h
      exact ⟨0, .unknown hf⟩
    | some f =>
      cases ha : Activation.enter f args none with
      | error fault =>
        simp only [hf, ha] at h
        cases h
        exact ⟨0, .refused hf ha⟩
      | ok a =>
        simp only [hf, ha] at h
        cases h
        obtain ⟨k, total, hloop⟩ := exists_loop_iff.2 ⟨rfl, hne⟩
        exact ⟨total, .ended hf ha hloop⟩

theorem call_ne_diverged (hm : machine.module.LoopsSpend) : (machine.call id args).1 ≠ .diverged := by
  obtain ⟨m, maxSteps, store, steps⟩ := machine
  unfold Machine.call
  cases hf : m.function? id with
  | none => simp
  | some f =>
    cases ha : Activation.enter f args none with
    | error fault => simp [ha]
    | ok a =>
      simp only [ha]
      refine run_ne_diverged hm ⟨?_, nofun⟩
      have hmem : f ∈ m.functions.toList := by
        obtain ⟨hlt, rfl⟩ := Array.getElem?_eq_some_iff.1 hf
        simp
      rw [(Activation.entered_of_enter ha).blocks_eq]
      exact List.forall_mem_singleton.2 ⟨hm f hmem, trivial⟩

/-- A call after any others executes no more instructions than they left of the budget, whatever code the
module has. It ends if every loop of the module has an instruction. -/
theorem call_within_budget (h : Spent m maxSteps machine spent) (id : FunctionId) (args : List Value) :
    (∀ outcome next executed, CallEnds machine id args outcome next executed →
      machine.call id args = (outcome, next) ∧ spent + executed ≤ maxSteps) ∧
    (m.LoopsSpend → ∃ outcome next executed, CallEnds machine id args outcome next executed ∧
      outcome ≠ .diverged) := by
  refine ⟨fun outcome next executed hends => ?_, fun hm => ?_⟩
  · exact ⟨(exists_callEnds_iff.1 ⟨executed, hends⟩).1, (h.call hends).within.2.2.2⟩
  · have hne : (machine.call id args).1 ≠ .diverged := call_ne_diverged (by rwa [h.within.1])
    obtain ⟨executed, hends⟩ := exists_callEnds_iff.2 ⟨rfl, hne⟩
    exact ⟨_, _, executed, hends, hne⟩

/-- A function that counts its parameter down to zero. -/
def countdown : Lir.Module where
  structs := #[]
  functions := #[{
    id := ⟨0⟩
    name := "countdown"
    decl := ⟨0⟩
    hasContext := false
    params := [.i64]
    ret := none
    locals := #[.i64]
    valueTypes := #[.i64, .i64, .i64]
    body := [.loop [.localGet ⟨0⟩ ⟨0⟩] ⟨0⟩
        [.const ⟨1⟩ 1, .binary ⟨2⟩ .sub ⟨0⟩ ⟨1⟩, .localSet ⟨0⟩ ⟨2⟩],
      .ret none] }]

/-- Counting down from two ends, and with a budget of five steps too. -/
theorem call_within_budget_countdown : countdown.LoopsSpend ∧ ∃ outcome next executed,
    CallEnds (boot countdown 5) ⟨0⟩ [.int 2] outcome next executed ∧ outcome ≠ .diverged ∧
      0 + executed ≤ 5 := by
  have hm : countdown.LoopsSpend := by decide +kernel
  obtain ⟨hall, hends⟩ := call_within_budget
    (show Spent countdown 5 (boot countdown 5) 0 from .boot) ⟨0⟩ [.int 2]
  obtain ⟨outcome, next, executed, hcall, hne⟩ := hends hm
  exact ⟨hm, outcome, next, executed, hcall, hne, (hall _ _ _ hcall).2⟩

/-- A function with a loop that has no instruction. -/
def idle : Lir.Module where
  structs := #[]
  functions := #[{
    id := ⟨0⟩
    name := "idle"
    decl := ⟨0⟩
    hasContext := false
    params := []
    ret := none
    locals := #[]
    valueTypes := #[.i64]
    body := [.const ⟨0⟩ 1, .loop [] ⟨0⟩ [], .ret none] }]

/-- The loop goes round forever, and the budget does not stop it. -/
theorem not_callEnds_idle : (∀ f ∈ idle.functions.toList, f.callParams.length ≤ f.locals.size) ∧
    ¬∃ outcome next executed, CallEnds (boot idle 10) ⟨0⟩ [] outcome next executed := by
  refine ⟨by decide, ?_⟩
  rintro ⟨outcome, next, executed, hends⟩
  obtain ⟨hcall, hne⟩ := exists_callEnds_iff.1 ⟨executed, hends⟩
  have hdiverged : ((boot idle 10).call ⟨0⟩ []).1 = .diverged := rfl
  rw [hcall] at hdiverged
  exact hne hdiverged

end Machine

end StaticChain

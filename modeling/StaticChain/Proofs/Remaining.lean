import StaticChain.Proofs.Structured

/-!
# Evaluation of what is left

The machine evaluates a function with open blocks and waiting activations. `blocksResult` and `resume` say what
is still to be evaluated for them; closing blocks does not change that (`comes_settle`) and neither does the
effect of an instruction (`resumeFrom_afterEffect`), so a run ends with what the evaluation gives
(`rest_eq_answer`). Calls of a machine are therefore structured evaluations (`call_eq_iff_evalFunction`).
-/

namespace StaticChain.Machine

open Lir (ValueId FunctionId Inst)

/-! ## What is left to be evaluated -/

section

variable (m : Lir.Module) (maxSteps : Nat)

/-- What follows at the end of a block. -/
noncomputable def kindResult (depth : Nat) : BlockKind → Scene → Option (Exit × Scene)
  | .straight, s => some (.next, s)
  | .header loop, s => testResult m maxSteps depth loop s
  | .body loop, s => loopResult m maxSteps depth loop s

/-- Evaluates what is left in open blocks. -/
noncomputable def blocksResult (depth : Nat) : List Block → Scene → Option (Exit × Scene)
  | [], s => some (.next, s)
  | ⟨rest, kind⟩ :: outer, s =>
    andThen (andThen (bodyResult m maxSteps depth rest s) (kindResult m maxSteps depth kind))
      (blocksResult depth outer)

/-- An activation without its open blocks and the destination of its result, which matter to nothing but the
order in which code is executed. -/
def Activation.bare (a : Activation) : Activation := { a with blocks := [], dest := none }

/-- Evaluates what is left in the activations that wait for an answer. -/
noncomputable def resume : Option ValueId → List Activation → Answer → Option Answer
  | _, [], answer => some answer
  | dest, caller :: waiting, answer =>
    (andThen (some (Scene.back ⟨caller.bare, answer.store, answer.steps⟩ dest answer))
      (blocksResult m maxSteps waiting.length caller.blocks)).bind fun (exit, s) =>
        resume caller.dest waiting (s.leave exit)

/-- Evaluates the rest of a call, after something in its active function is evaluated. -/
noncomputable def resumeFrom (s : State) (r : Option (Exit × Scene)) : Option Answer :=
  r.bind fun (exit, left) => resume m maxSteps s.active.dest s.callers.waiting (left.leave exit)

def State.scene (s : State) (steps : Nat) : Scene := ⟨s.active.bare, s.store, steps⟩

/-- Evaluates the rest of a call. -/
noncomputable def rest (s : State) (steps : Nat) : Option Answer :=
  resumeFrom m maxSteps s
    (blocksResult m maxSteps s.callers.waiting.length s.active.blocks (s.scene steps))

/-- Goes on after the effect of an instruction. -/
noncomputable def afterEffect (depth : Nat) (s : Scene) : Effect → Option (Exit × Scene)
  | .enter block => andThen (bodyResult m maxSteps depth block.rest s) (kindResult m maxSteps depth block.kind)
  | .ret value => some (.returned value, s)
  | .call dest function args =>
    if depth + 1 ≥ maxDepth then some (.failed (.depthExceeded s.active.function.name), s)
    else (functionAnswer m maxSteps (depth + 1) function args s.store s.steps).map (s.back dest)
  | effect => some (.next, s.carry effect)

end

/-- The answer that a run ends with, if it ends. -/
def Result.answer? (r : Result) : Option Answer :=
  match r.outcome with
  | .returned value => some ⟨.ok value, r.store, r.steps⟩
  | .failed fault => some ⟨.error fault, r.store, r.steps⟩
  | .diverged => none

variable {m : Lir.Module} {maxSteps depth : Nat} {s : State} {steps : Nat}

theorem effect_bare (a : Activation) (store : Store) (inst : Inst) :
    a.bare.effect m store inst = a.effect m store inst := by
  cases inst <;> rfl

/-- A fault leaves the waiting activations one after another. -/
theorem resume_error (dest : Option ValueId) (waiting : List Activation) (fault : Fault) (store : Store)
    (steps : Nat) : resume m maxSteps dest waiting ⟨.error fault, store, steps⟩ =
      some ⟨.error fault, waiting.foldl (fun store a => store.releaseAll a.owned) store, steps⟩ := by
  induction waiting generalizing dest store with
  | nil => rfl
  | cons caller waiting ih => exact ih caller.dest _

theorem resumeFrom_failed (fault : Fault) :
    resumeFrom m maxSteps s (some (.failed fault, s.scene steps)) =
      some ⟨.error fault, s.unwind, steps⟩ :=
  resume_error s.active.dest s.callers.waiting fault _ steps

/-! ## Closing blocks -/

/-- What is left to be evaluated in some blocks is what is left at the position they come to. -/
def Comes (m : Lir.Module) (maxSteps depth : Nat) (s : Scene) (r : Option (Exit × Scene)) : Position → Prop
  | .next inst after =>
    r = andThen (instResult m maxSteps depth inst s) (blocksResult m maxSteps depth after)
  | .fault fault => ∃ exit, r = some (exit, s) ∧ s.leave exit = s.leave (.failed fault)
  | .stuck => r = none

theorem comes_next (s : Scene) (inst : Inst) (rest : List Inst) (kind : BlockKind) (outer : List Block) :
    Comes m maxSteps depth s (blocksResult m maxSteps depth (⟨inst :: rest, kind⟩ :: outer) s)
      (.next inst (⟨rest, kind⟩ :: outer)) := by
  change blocksResult m maxSteps depth (⟨inst :: rest, kind⟩ :: outer) s = _
  rw [blocksResult, bodyResult_cons, andThen_assoc, andThen_assoc]
  congr 1
  funext s
  rw [blocksResult, andThen_assoc]

/-- Where the condition holds, the body comes next, or the header if there is no body. -/
theorem comes_round {s : Scene} {loop : LoopCode} {condition : Int64}
    (h : s.active.int loop.condition = .ok condition) (hne : condition ≠ 0) (outer : List Block) :
    Comes m maxSteps depth s (blocksResult m maxSteps depth (⟨loop.body, .body loop⟩ :: outer) s)
      (loop.round outer) := by
  obtain ⟨header, id, body⟩ := loop
  cases body with
  | cons inst rest => exact comes_next s inst rest _ outer
  | nil =>
    have hempty : blocksResult m maxSteps depth (⟨[], .body ⟨header, id, []⟩⟩ :: outer) s =
        andThen (loopResult m maxSteps depth ⟨header, id, []⟩ s) (blocksResult m maxSteps depth outer) := by
      rw [blocksResult, bodyResult_nil, andThen_next, kindResult]
    rw [hempty]
    cases header with
    | cons inst rest =>
      rw [loopResult_eq]
      exact comes_next s inst rest (.header ⟨inst :: rest, id, []⟩) outer
    | nil =>
      rw [loopResult_eq_none ⟨rfl, rfl, condition, h, hne⟩]
      rfl

/-- Closing blocks leaves the same to be evaluated. -/
theorem comes_settle (s : Scene) (blocks : List Block) :
    Comes m maxSteps depth s (blocksResult m maxSteps depth blocks s) (s.active.settle blocks) := by
  induction blocks with
  | nil => exact ⟨.next, rfl, rfl⟩
  | cons block outer ih =>
    obtain ⟨rest, kind⟩ := block
    cases rest with
    | cons inst rest => exact comes_next s inst rest kind outer
    | nil =>
      -- The end of a header, which is like the end of a body whose loop has no header.
      have htest : ∀ loop : LoopCode, Comes m maxSteps depth s
          (andThen (testResult m maxSteps depth loop s) (blocksResult m maxSteps depth outer))
          (s.active.settle (⟨[], .header loop⟩ :: outer)) := by
        intro loop
        cases hint : s.active.int loop.condition with
        | error fault =>
          rw [testResult_of_error hint]
          simp only [Activation.settle, hint]
          exact ⟨.failed fault, rfl, rfl⟩
        | ok condition =>
          rw [testResult_of_ok hint]
          simp only [Activation.settle, hint]
          by_cases hzero : condition = 0
          · simp only [if_pos hzero]
            exact ih
          · simp only [if_neg hzero]
            exact comes_round hint hzero outer
      cases kind with
      | straight =>
        rw [blocksResult, bodyResult_nil]
        exact ih
      | header loop =>
        rw [blocksResult, bodyResult_nil]
        exact htest loop
      | body loop =>
        rw [blocksResult, bodyResult_nil]
        obtain ⟨header, id, body⟩ := loop
        change Comes m maxSteps depth s (andThen (loopResult m maxSteps depth ⟨header, id, body⟩ s) _) _
        rw [loopResult_eq]
        cases header with
        | cons inst rest => exact comes_next s inst rest (.header ⟨inst :: rest, id, body⟩) outer
        | nil =>
          rw [bodyResult_nil]
          exact htest ⟨[], id, body⟩

/-! ## Instructions -/

theorem instResult_of_effect {s : Scene} {inst : Inst} {effect : Effect} (hle : ¬maxSteps < s.steps + 1)
    (h : s.active.effect m s.store inst = .ok effect) : instResult m maxSteps depth inst s =
      afterEffect m maxSteps depth { s with steps := s.steps + 1 } effect := by
  have heval : ∀ fuel, evalInst m maxSteps (fuel + 1) depth inst s = _ := fun fuel => by
    rw [evalInst, if_neg hle]
  cases Activation.effect_eq_ok.1 h with
  | branch hx =>
    simp only [Activation.int_eq_ok.2 hx] at heval
    exact ((stable_inst _ s).limit_eq heval).trans (andThen_some_next _).symm
  | loop => exact ((stable_inst _ s).limit_eq heval).trans (loopResult_eq _ _)
  | call | callClosure =>
    simp only [h] at heval
    rw [afterEffect]
    split
    · exact ((stable_inst _ s).limit_eq fun fuel => (heval fuel).trans (if_pos ‹_›)).trans (limit_const _)
    · exact ((stable_inst _ s).limit_eq fun fuel => (heval fuel).trans (if_neg ‹_›)).trans
        ((stable_function _ _ _ _).limit_map _)
  | _ =>
    simp only [h] at heval
    exact ((stable_inst _ s).limit_eq heval).trans (limit_const _)

/-- Calls are entered alike, wherever their result goes. -/
theorem bare_of_enter {f : Lir.Function} {args : List Value} {dest : Option ValueId} {a : Activation}
    (h : Activation.enter f args dest = .ok a) : ∃ a', Activation.enter f args none = .ok a' ∧
      a.bare = { a' with blocks := [] } ∧ a.dest = dest ∧ a.blocks = [⟨f.body, .straight⟩] := by
  simp only [Activation.enter] at h ⊢
  split at h
  · cases h
    exact ⟨_, if_pos ‹_›, rfl, rfl, rfl⟩
  · cases h

theorem enter_eq_error {f : Lir.Function} {args : List Value} {dest : Option ValueId} {fault : Fault}
    (h : Activation.enter f args dest = .error fault) : Activation.enter f args none = .error fault := by
  simp only [Activation.enter] at h ⊢
  split at h
  · cases h
  · rw [if_neg ‹_›]
    exact h

/-- A call that is entered is evaluated as far as its blocks are, and then left. -/
theorem functionAnswer_of_enter {id : FunctionId} {f : Lir.Function} {args : List Value}
    {dest : Option ValueId} {a : Activation} (hf : m.function? id = some f)
    (ha : Activation.enter f args dest = .ok a) (store : Store) (steps : Nat) :
    functionAnswer m maxSteps depth id args store steps =
      (blocksResult m maxSteps depth a.blocks ⟨a.bare, store, steps⟩).map fun (exit, s) => s.leave exit := by
  obtain ⟨a', ha', hbare, -, hblocks⟩ := bare_of_enter ha
  have hbody : ∀ s, blocksResult m maxSteps depth [⟨f.body, .straight⟩] s =
      bodyResult m maxSteps depth f.body s :=
    fun s => (andThen_some_next _).trans (andThen_some_next _)
  rw [functionAnswer_of_ok hf ha', hblocks, hbody, hbare]

/-- What is left after a callee is what is left where it is active. -/
theorem resumeFrom_callee (s : State) (callee : Activation) (steps : Nat) (r : Option (Exit × Scene)) :
    resumeFrom m maxSteps s (andThen
      ((r.map fun (exit, left) => left.leave exit).map ((s.scene steps).back callee.dest))
      (blocksResult m maxSteps s.callers.waiting.length s.active.blocks)) =
    resumeFrom m maxSteps ⟨callee, s.callers.push s.active, s.store⟩ r := by
  cases r <;> rfl

/-- What is left to be evaluated after an effect is left of the state that it leads to. -/
theorem resumeFrom_afterEffect (s : State) (steps : Nat) (effect : Effect) :
    resumeFrom m maxSteps s (andThen
      (afterEffect m maxSteps s.callers.waiting.length (s.scene steps) effect)
      (blocksResult m maxSteps s.callers.waiting.length s.active.blocks)) =
    match s.apply m effect with
    | .stopped outcome store => Result.answer? ⟨outcome, store, steps⟩
    | .running s' => rest m maxSteps s' steps := by
  have hfailed : ∀ fault, resumeFrom m maxSteps s (some (.failed fault, s.scene steps)) =
      some ⟨.error fault, s.unwind, steps⟩ := fun fault => resumeFrom_failed fault
  obtain ⟨a, ⟨waiting, depth, rfl⟩, store⟩ := s
  cases effect with
  | define | assign | write => rfl
  | allocate dest struct kind slots => cases kind <;> rfl
  | enter block => rfl
  | call dest function args =>
    simp only [afterEffect, State.apply, State.call]
    by_cases hdepth : waiting.length + 1 ≥ maxDepth
    · rw [if_pos hdepth, if_pos hdepth]
      exact hfailed _
    rw [if_neg hdepth, if_neg hdepth]
    cases hf : m.function? function with
    | none =>
      rw [functionAnswer_of_unknown hf]
      exact hfailed _
    | some f =>
      cases ha : Activation.enter f args dest with
      | error fault =>
        rw [functionAnswer_of_error hf (enter_eq_error ha)]
        simp only [ha]
        exact hfailed _
      | ok callee =>
        obtain ⟨-, -, -, rfl, -⟩ := bare_of_enter ha
        rw [functionAnswer_of_enter hf ha]
        simp only [ha]
        exact resumeFrom_callee ⟨a, ⟨waiting, _, rfl⟩, store⟩ callee steps _
  | ret value =>
    cases waiting with
    | nil => rfl
    | cons caller waiting =>
      change resume m maxSteps a.dest (caller :: waiting) ⟨.ok value, store.releaseAll a.owned, steps⟩ = _
      simp only [State.apply, State.ret, CallStack.pop?]
      cases a.dest <;> cases value <;> rfl

/-! ## Runs and calls -/

/-- A run ends with what is left to be evaluated at its start. -/
theorem rest_eq_answer {left : Nat} (hleft : left = maxSteps - steps) :
    rest m maxSteps s steps = (run m maxSteps left s steps).answer? := by
  induction left using Nat.strongRecOn generalizing s steps with
  | ind left ih =>
    have hcomes : Comes m maxSteps s.callers.waiting.length (s.scene steps) _
        (s.active.settle s.active.blocks) :=
      Activation.settle_congr (a := s.active.bare) (b := s.active) rfl rfl _ ▸
        comes_settle (s.scene steps) s.active.blocks
    unfold run rest
    cases hsettle : s.active.settle s.active.blocks with
    | fault fault =>
      rw [hsettle] at hcomes
      obtain ⟨exit, hexit, hleave⟩ := hcomes
      rw [hexit]
      change resume m maxSteps s.active.dest s.callers.waiting ((s.scene steps).leave exit) = _
      rw [hleave]
      exact resume_error _ _ _ _ _
    | stuck =>
      rw [hsettle] at hcomes
      rw [show blocksResult m maxSteps s.callers.waiting.length s.active.blocks (s.scene steps) = none
        from hcomes]
      rfl
    | next inst blocks =>
      rw [hsettle] at hcomes
      rw [show blocksResult m maxSteps s.callers.waiting.length s.active.blocks (s.scene steps) = _ from hcomes]
      cases left with
      | zero =>
        rw [instResult_of_spent (by change maxSteps < steps + 1; omega)]
        exact resumeFrom_failed _
      | succ left =>
        have hle : ¬maxSteps < (s.scene steps).steps + 1 := by
          change ¬maxSteps < steps + 1
          omega
        have hbare : (s.scene steps).active.effect m s.store inst =
            (s.take blocks).active.effect m s.store inst := effect_bare (s.take blocks).active s.store inst
        cases heffect : (s.take blocks).active.effect m s.store inst with
        | error fault =>
          rw [instResult_of_error hle (hbare.trans heffect)]
          simp only [State.step, show (s.take blocks).store = s.store from rfl, heffect]
          exact resumeFrom_failed fault
        | ok effect =>
          rw [instResult_of_effect hle (hbare.trans heffect)]
          simp only [State.step, show (s.take blocks).store = s.store from rfl, heffect]
          refine (resumeFrom_afterEffect (s.take blocks) (steps + 1) effect).trans ?_
          cases (s.take blocks).apply m effect with
          | stopped outcome store => rfl
          | running s' => exact ih left (Nat.lt_succ_self left) (by omega)

/-- What a call of a machine ends with is what evaluating the function gives. -/
theorem call_eq_functionAnswer (machine : Machine) (id : FunctionId) (args : List Value) :
    ∃ r : Result, machine.call id args = (r.outcome, { machine with store := r.store, steps := r.steps }) ∧
      functionAnswer machine.module machine.maxSteps 0 id args machine.store machine.steps = r.answer? := by
  obtain ⟨m, maxSteps, store, steps⟩ := machine
  unfold Machine.call
  cases hf : m.function? id with
  | none =>
    exact ⟨⟨.failed (.functionUnknown id), store, steps⟩, by simp only, functionAnswer_of_unknown hf ..⟩
  | some f =>
    cases ha : Activation.enter f args none with
    | error fault =>
      exact ⟨⟨.failed fault, store, steps⟩, by simp only [ha], functionAnswer_of_error hf ha ..⟩
    | ok a =>
      refine ⟨run m maxSteps (maxSteps - steps) ⟨a, .empty, store⟩ steps, by simp only [ha], ?_⟩
      rw [← rest_eq_answer rfl, functionAnswer_of_enter hf ha]
      change _ = resumeFrom m maxSteps ⟨a, .empty, store⟩
        (blocksResult m maxSteps 0 a.blocks ⟨a.bare, store, steps⟩)
      cases blocksResult m maxSteps 0 a.blocks ⟨a.bare, store, steps⟩ <;> rfl

/-- The outcome of a call. -/
def Answer.outcome (answer : Answer) : Outcome :=
  match answer.result with
  | .ok value => .returned value
  | .error fault => .failed fault

/-- A machine implements structured evaluation: a call of it ends with an outcome, a store and a step count
exactly when the evaluation gives them with some fuel, and goes on forever exactly when no fuel is enough. -/
theorem call_eq_iff_evalFunction (machine : Machine) (id : FunctionId) (args : List Value) :
    (∀ answer : Answer,
      machine.call id args = (answer.outcome, { machine with store := answer.store, steps := answer.steps }) ↔
        ∃ fuel, evalFunction machine.module machine.maxSteps fuel 0 id args machine.store machine.steps =
          some answer) ∧
    ((machine.call id args).1 = .diverged ↔
      ∀ fuel, evalFunction machine.module machine.maxSteps fuel 0 id args machine.store machine.steps = none) := by
  obtain ⟨⟨outcome, store, steps⟩, hcall, hanswer⟩ := call_eq_functionAnswer machine id args
  constructor
  · intro answer
    rw [hcall, ← (stable_function id args _ _).limit_eq_some_iff, ← functionAnswer, hanswer]
    obtain ⟨result, store', steps'⟩ := answer
    cases outcome <;> cases result <;> simp [Answer.outcome, Result.answer?]
  · rw [hcall, ← limit_eq_none_iff, ← functionAnswer, hanswer]
    cases outcome <;> simp [Result.answer?]

end StaticChain.Machine

import StaticChain.Proofs.Simulation

/-!
# Structured evaluation

`evalFunction` evaluates a function by recursion over its code: a branch evaluates one of its blocks, a loop
its header, its test and its body over and over, and a call the function that it calls. An instruction is
charged one step before anything else happens to it. A return and a fault leave everything around them in the
function, and whichever way a function is left, its stack objects are released.

A loop can go on forever without an instruction, so the recursion has a fuel, which bounds how deep it gets and
nothing else: a result that is there with some fuel is there with more (`stableAt`). What is evaluated with
enough fuel, `bodyResult` and the others, satisfies the equations of the recursion without the fuel.
-/

namespace StaticChain.Machine

open Lir (ValueId FunctionId Inst)

/-! ## The evaluator -/

/-- How a row of instructions is left. -/
inductive Exit where
  /-- At its end. -/
  | next
  | returned (value : Option Value)
  | failed (fault : Fault)
deriving Inhabited

/-- An activation in the course of an evaluation, with the store and the step count. It has no open blocks, for
these are what the recursion stands for. -/
structure Scene where
  active : Activation
  store : Store
  steps : Nat
deriving Inhabited

/-- What evaluating a function gives. -/
structure Answer where
  result : Except Fault (Option Value)
  store : Store
  steps : Nat
deriving Inhabited

namespace Scene

variable (s : Scene)

/-- Carries out an effect that stays in the activation. -/
def carry : Effect → Scene
  | .define dest value => { s with active := s.active.define dest value }
  | .assign target value => { s with active := s.active.assign target value }
  | .allocate dest struct kind slots =>
    let active := s.active.define dest (.object s.store.next)
    { s with
      active := match kind with
        | .stack => { active with owned := s.store.next :: active.owned }
        | .heap => active
      store := s.store.allocate struct kind slots }
  | .write object slot value => { s with store := s.store.set object slot value }
  | .enter _ | .call .. | .ret _ => s

/-- Goes on after a call with its answer. -/
def back (dest : Option ValueId) (answer : Answer) : Exit × Scene :=
  let s := { s with store := answer.store, steps := answer.steps }
  match answer.result with
  | .error fault => (.failed fault, s)
  | .ok value =>
    match dest, value with
    | some dest, some value => (.next, { s with active := s.active.define dest value })
    | _, _ => (.next, s)

/-- Leaves the function. -/
def leave (exit : Exit) : Answer where
  result := match exit with
    | .next => .error (.bodyEnded s.active.function.name)
    | .returned value => .ok value
    | .failed fault => .error fault
  store := s.store.releaseAll s.active.owned
  steps := s.steps

end Scene

/-- Goes on where something ended, unless it was left in another way. -/
def andThen (r : Option (Exit × Scene)) (k : Scene → Option (Exit × Scene)) : Option (Exit × Scene) :=
  r.bind fun
    | (.next, s) => k s
    | left => some left

section

variable (m : Lir.Module) (maxSteps : Nat)

mutual

/-- Evaluates instructions in order. There is no result where the recursion is deeper than the fuel. -/
def evalBody : (fuel depth : Nat) → List Inst → Scene → Option (Exit × Scene)
  | 0, _, _, _ => none
  | _ + 1, _, [], s => some (.next, s)
  | fuel + 1, depth, inst :: rest, s => andThen (evalInst fuel depth inst s) (evalBody fuel depth rest)
termination_by structural fuel => fuel

/-- Evaluates an instruction, for one step of the budget. -/
def evalInst : (fuel depth : Nat) → Inst → Scene → Option (Exit × Scene)
  | 0, _, _, _ => none
  | fuel + 1, depth, inst, s =>
    let charged := { s with steps := s.steps + 1 }
    if maxSteps < charged.steps then
      some (.failed (.budgetExhausted maxSteps s.active.function.name), charged)
    else
      let s := charged
      match inst with
      | .branch condition thenBody elseBody =>
        match s.active.int condition with
        | .error fault => some (.failed fault, s)
        | .ok condition => evalBody fuel depth (if condition = 0 then elseBody else thenBody) s
      | .loop header condition body => evalLoop fuel depth ⟨header, condition, body⟩ s
      | inst =>
        match s.active.effect m s.store inst with
        | .error fault => some (.failed fault, s)
        | .ok (.ret value) => some (.returned value, s)
        | .ok (.call dest function args) =>
          if depth + 1 ≥ maxDepth then some (.failed (.depthExceeded s.active.function.name), s)
          else (evalFunction fuel (depth + 1) function args s.store s.steps).map (s.back dest)
        | .ok effect => some (.next, s.carry effect)
termination_by structural fuel => fuel

/-- Evaluates a loop from its header on. -/
def evalLoop : (fuel depth : Nat) → LoopCode → Scene → Option (Exit × Scene)
  | 0, _, _, _ => none
  | fuel + 1, depth, loop, s => andThen (evalBody fuel depth loop.header s) (evalTest fuel depth loop)
termination_by structural fuel => fuel

/-- Evaluates a loop from the test of its condition on, which costs nothing. -/
def evalTest : (fuel depth : Nat) → LoopCode → Scene → Option (Exit × Scene)
  | 0, _, _, _ => none
  | fuel + 1, depth, loop, s =>
    match s.active.int loop.condition with
    | .error fault => some (.failed fault, s)
    | .ok condition =>
      if condition = 0 then some (.next, s)
      else andThen (evalBody fuel depth loop.body s) (evalLoop fuel depth loop)
termination_by structural fuel => fuel

/-- Evaluates a function under so many waiting ones. -/
def evalFunction : (fuel depth : Nat) → FunctionId → List Value → Store → (steps : Nat) → Option Answer
  | 0, _, _, _, _, _ => none
  | fuel + 1, depth, function, args, store, steps =>
    match m.function? function with
    | none => some ⟨.error (.functionUnknown function), store, steps⟩
    | some function =>
      match Activation.enter function args none with
      | .error fault => some ⟨.error fault, store, steps⟩
      | .ok active =>
        (evalBody fuel depth function.body ⟨{ active with blocks := [] }, store, steps⟩).map fun (exit, s) =>
          s.leave exit
termination_by structural fuel => fuel

end

end

/-! ## One after the other -/

@[simp] theorem andThen_next (s : Scene) (k : Scene → Option (Exit × Scene)) :
    andThen (some (.next, s)) k = k s := rfl

theorem andThen_assoc (r : Option (Exit × Scene)) (k l : Scene → Option (Exit × Scene)) :
    andThen (andThen r k) l = andThen r fun s => andThen (k s) l := by
  rcases r with _ | ⟨_ | _ | _, s⟩ <;> rfl

@[simp] theorem andThen_some_next (r : Option (Exit × Scene)) : andThen r (fun s => some (.next, s)) = r := by
  rcases r with _ | ⟨_ | _ | _, s⟩ <;> rfl

/-! ## Enough fuel -/

/-- The second is the first, unless the first is not there yet. -/
def Approximates {α : Type} (x y : Option α) : Prop := ∀ a, x = some a → y = some a

namespace Approximates

variable {α β : Type} {x y : Option α}

theorem refl (x : Option α) : Approximates x x := fun _ h => h

theorem none (y : Option α) : Approximates none y :=
  fun _ h => absurd h.symm (Option.some_ne_none _)

theorem map (h : Approximates x y) (f : α → β) : Approximates (x.map f) (y.map f) := by
  intro b hb
  obtain ⟨a, ha, rfl⟩ := Option.map_eq_some_iff.1 hb
  exact Option.map_eq_some_iff.2 ⟨a, h a ha, rfl⟩

theorem andThen {r r' : Option (Exit × Scene)} {k k' : Scene → Option (Exit × Scene)} (h : Approximates r r')
    (hk : ∀ s, Approximates (k s) (k' s)) : Approximates (andThen r k) (andThen r' k') := by
  intro a ha
  obtain ⟨⟨exit, s⟩, hr, ha⟩ := Option.bind_eq_some_iff.1 ha
  refine Option.bind_eq_some_iff.2 ⟨_, h _ hr, ?_⟩
  cases exit with
  | next => exact hk s a ha
  | returned => exact ha
  | failed => exact ha

end Approximates

/-- What results come to with more and more fuel, if one is there with some. -/
noncomputable def limit {α : Type} (f : Nat → Option α) : Option α :=
  open Classical in if h : ∃ a n, f n = some a then some h.choose else none

section

variable {α β : Type} {f : Nat → Option α}

/-- A result stays with more fuel. -/
def Stable (f : Nat → Option α) : Prop := ∀ n, Approximates (f n) (f (n + 1))

theorem Stable.mono (hf : Stable f) {n n' : Nat} (hle : n ≤ n') : Approximates (f n) (f n') := by
  induction hle with
  | refl => exact .refl _
  | step _ ih => exact fun a ha => hf _ a (ih a ha)

theorem Stable.limit_eq_some_iff (hf : Stable f) {a : α} : limit f = some a ↔ ∃ n, f n = some a := by
  unfold limit
  constructor
  · intro h
    split at h
    · rename_i hex
      cases h
      exact hex.choose_spec
    · cases h
  · rintro ⟨n, hn⟩
    have hex : ∃ a n, f n = some a := ⟨a, n, hn⟩
    rw [dif_pos hex]
    obtain ⟨n', hn'⟩ := hex.choose_spec
    have h₁ := hf.mono (Nat.le_max_left n n') _ hn
    have h₂ := hf.mono (Nat.le_max_right n n') _ hn'
    exact h₂.symm.trans h₁

theorem Stable.approximates_limit (hf : Stable f) (n : Nat) : Approximates (f n) (limit f) :=
  fun _ h => hf.limit_eq_some_iff.2 ⟨n, h⟩

theorem limit_eq_none_iff : limit f = none ↔ ∀ n, f n = none := by
  unfold limit
  split
  · rename_i hex
    obtain ⟨a, n, hn⟩ := hex
    refine ⟨fun h => absurd h (Option.some_ne_none _), fun hnone => ?_⟩
    exact absurd (hn.symm.trans (hnone n)) (Option.some_ne_none a)
  · rename_i hex
    exact ⟨fun _ n => Option.eq_none_iff_forall_ne_some.2 fun a hn => hex ⟨a, n, hn⟩, fun _ => rfl⟩

/-- With enough fuel it no longer matters how much there is. -/
theorem Stable.limit_eq (hf : Stable f) {g : Nat → Option α} (h : ∀ n, f (n + 1) = g n) :
    limit f = limit g := by
  have hg : Stable g := fun n => h n ▸ h (n + 1) ▸ hf (n + 1)
  refine Option.ext fun a => ?_
  rw [hf.limit_eq_some_iff, hg.limit_eq_some_iff]
  constructor
  · rintro ⟨n, hn⟩
    exact ⟨n, h n ▸ hf n a hn⟩
  · rintro ⟨n, hn⟩
    exact ⟨n + 1, (h n).trans hn⟩

theorem limit_const (x : Option α) : limit (fun _ => x) = x :=
  Option.ext fun a => by
    rw [Stable.limit_eq_some_iff fun _ => .refl x]
    exact exists_const Nat

theorem Stable.limit_map (hf : Stable f) (g : α → β) : limit (fun n => (f n).map g) = (limit f).map g := by
  refine Option.ext fun b => ?_
  rw [Stable.limit_eq_some_iff fun n => (hf n).map g, Option.map_eq_some_iff]
  simp only [Option.map_eq_some_iff, hf.limit_eq_some_iff]
  exact ⟨fun ⟨n, a, ha, hb⟩ => ⟨a, ⟨n, ha⟩, hb⟩, fun ⟨a, ⟨n, ha⟩, hb⟩ => ⟨n, a, ha, hb⟩⟩

/-- Two evaluations one after the other have enough fuel where there is enough for each. -/
theorem limit_andThen {r : Nat → Option (Exit × Scene)} {k : Nat → Scene → Option (Exit × Scene)}
    (hr : Stable r) (hk : ∀ s, Stable (k · s)) :
    limit (fun n => andThen (r n) (k n)) = andThen (limit r) fun s => limit (k · s) := by
  have hstable : Stable fun n => andThen (r n) (k n) := fun n => (hr n).andThen fun s => hk s n
  refine Option.ext fun a => ?_
  rw [hstable.limit_eq_some_iff]
  constructor
  · rintro ⟨n, hn⟩
    exact (hr.approximates_limit n).andThen (fun s => (hk s).approximates_limit n) a hn
  · intro ha
    cases hlimit : limit r with
    | none =>
      rw [hlimit] at ha
      cases ha
    | some left =>
      obtain ⟨n, hn⟩ := hr.limit_eq_some_iff.1 hlimit
      rw [hlimit] at ha
      obtain ⟨exit, s⟩ := left
      cases exit with
      | next =>
        obtain ⟨n', hn'⟩ := (hk s).limit_eq_some_iff.1 ha
        refine ⟨max n n', ?_⟩
        rw [hr.mono (Nat.le_max_left n n') _ hn]
        exact (hk s).mono (Nat.le_max_right n n') a hn'
      | returned value => exact ⟨n, by rw [hn]; exact ha⟩
      | failed fault => exact ⟨n, by rw [hn]; exact ha⟩

end

section

variable (m : Lir.Module) (maxSteps : Nat)

/-- What is evaluated with so much fuel stays with more. -/
structure StableAt (fuel : Nat) : Prop where
  body : ∀ depth body s,
    Approximates (evalBody m maxSteps fuel depth body s) (evalBody m maxSteps (fuel + 1) depth body s)
  inst : ∀ depth inst s,
    Approximates (evalInst m maxSteps fuel depth inst s) (evalInst m maxSteps (fuel + 1) depth inst s)
  loop : ∀ depth loop s,
    Approximates (evalLoop m maxSteps fuel depth loop s) (evalLoop m maxSteps (fuel + 1) depth loop s)
  test : ∀ depth loop s,
    Approximates (evalTest m maxSteps fuel depth loop s) (evalTest m maxSteps (fuel + 1) depth loop s)
  function : ∀ depth id args store steps, Approximates (evalFunction m maxSteps fuel depth id args store steps)
    (evalFunction m maxSteps (fuel + 1) depth id args store steps)

theorem stableAt (fuel : Nat) : StableAt m maxSteps fuel := by
  induction fuel with
  | zero =>
    exact ⟨fun _ _ _ => .none _, fun _ _ _ => .none _, fun _ _ _ => .none _, fun _ _ _ => .none _,
      fun _ _ _ _ _ => .none _⟩
  | succ fuel ih =>
    refine ⟨fun depth body s => ?_, fun depth inst s => ?_, fun depth loop s => ?_, fun depth loop s => ?_,
      fun depth id args store steps => ?_⟩
    · cases body with
      | nil => exact .refl _
      | cons inst rest => exact (ih.inst depth inst s).andThen (ih.body depth rest)
    · rw [evalInst, evalInst]
      split
      · exact .refl _
      dsimp only
      split
      · split
        · exact .refl _
        · exact ih.body _ _ _
      · exact ih.loop _ _ _
      · split
        · exact .refl _
        · exact .refl _
        · split
          · exact .refl _
          · exact (ih.function _ _ _ _ _).map _
        · exact .refl _
    · exact (ih.body depth loop.header s).andThen (ih.test depth loop)
    · rw [evalTest, evalTest]
      split
      · exact .refl _
      split
      · exact .refl _
      · exact (ih.body depth loop.body _).andThen (ih.loop depth loop)
    · rw [evalFunction, evalFunction]
      split
      · exact .refl _
      split
      · exact .refl _
      · exact (ih.body _ _ _).map _

end

/-! ## Results -/

section

variable (m : Lir.Module) (maxSteps depth : Nat)

/-- What evaluating instructions comes to, if it does not go on forever. -/
noncomputable def bodyResult (body : List Inst) (s : Scene) : Option (Exit × Scene) :=
  limit fun fuel => evalBody m maxSteps fuel depth body s

noncomputable def instResult (inst : Inst) (s : Scene) : Option (Exit × Scene) :=
  limit fun fuel => evalInst m maxSteps fuel depth inst s

noncomputable def loopResult (loop : LoopCode) (s : Scene) : Option (Exit × Scene) :=
  limit fun fuel => evalLoop m maxSteps fuel depth loop s

noncomputable def testResult (loop : LoopCode) (s : Scene) : Option (Exit × Scene) :=
  limit fun fuel => evalTest m maxSteps fuel depth loop s

noncomputable def functionAnswer (function : FunctionId) (args : List Value) (store : Store) (steps : Nat) :
    Option Answer :=
  limit fun fuel => evalFunction m maxSteps fuel depth function args store steps

end

variable {m : Lir.Module} {maxSteps depth : Nat}

theorem stable_body (body : List Inst) (s : Scene) : Stable (evalBody m maxSteps · depth body s) :=
  fun fuel => (stableAt m maxSteps fuel).body depth body s

theorem stable_inst (inst : Inst) (s : Scene) : Stable (evalInst m maxSteps · depth inst s) :=
  fun fuel => (stableAt m maxSteps fuel).inst depth inst s

theorem stable_loop (loop : LoopCode) (s : Scene) : Stable (evalLoop m maxSteps · depth loop s) :=
  fun fuel => (stableAt m maxSteps fuel).loop depth loop s

theorem stable_test (loop : LoopCode) (s : Scene) : Stable (evalTest m maxSteps · depth loop s) :=
  fun fuel => (stableAt m maxSteps fuel).test depth loop s

theorem stable_function (id : FunctionId) (args : List Value) (store : Store) (steps : Nat) :
    Stable (evalFunction m maxSteps · depth id args store steps) :=
  fun fuel => (stableAt m maxSteps fuel).function depth id args store steps

@[simp] theorem bodyResult_nil (s : Scene) : bodyResult m maxSteps depth [] s = some (.next, s) :=
  ((stable_body [] s).limit_eq fun _ => rfl).trans (limit_const _)

theorem bodyResult_cons (inst : Inst) (rest : List Inst) (s : Scene) :
    bodyResult m maxSteps depth (inst :: rest) s =
      andThen (instResult m maxSteps depth inst s) (bodyResult m maxSteps depth rest) :=
  ((stable_body (inst :: rest) s).limit_eq fun _ => rfl).trans
    (limit_andThen (stable_inst inst s) (stable_body rest))

theorem loopResult_eq (loop : LoopCode) (s : Scene) : loopResult m maxSteps depth loop s =
    andThen (bodyResult m maxSteps depth loop.header s) (testResult m maxSteps depth loop) :=
  ((stable_loop loop s).limit_eq fun _ => rfl).trans
    (limit_andThen (stable_body loop.header s) (stable_test loop))

theorem testResult_of_error {loop : LoopCode} {s : Scene} {fault : Fault}
    (h : s.active.int loop.condition = .error fault) :
    testResult m maxSteps depth loop s = some (.failed fault, s) :=
  ((stable_test loop s).limit_eq fun _ => by rw [evalTest, h]).trans (limit_const _)

theorem testResult_of_ok {loop : LoopCode} {s : Scene} {condition : Int64}
    (h : s.active.int loop.condition = .ok condition) :
    testResult m maxSteps depth loop s = if condition = 0 then some (.next, s)
      else andThen (bodyResult m maxSteps depth loop.body s) (loopResult m maxSteps depth loop) := by
  have heval : ∀ fuel, evalTest m maxSteps (fuel + 1) depth loop s = if condition = 0 then some (.next, s)
      else andThen (evalBody m maxSteps fuel depth loop.body s) (evalLoop m maxSteps fuel depth loop) :=
    fun fuel => by rw [evalTest, h]
  split
  · exact ((stable_test loop s).limit_eq fun fuel => (heval fuel).trans (if_pos ‹_›)).trans (limit_const _)
  · exact ((stable_test loop s).limit_eq fun fuel => (heval fuel).trans (if_neg ‹_›)).trans
      (limit_andThen (stable_body loop.body s) (stable_loop loop))

/-- A loop without any instruction, at a test of its condition that succeeds. -/
structure LoopCode.Idles (loop : LoopCode) (s : Scene) : Prop where
  header_eq : loop.header = []
  body_eq : loop.body = []
  holds : ∃ condition, s.active.int loop.condition = .ok condition ∧ condition ≠ 0

/-- No fuel is enough for such a loop: going round it needs fuel and charges nothing. -/
theorem LoopCode.Idles.eval_eq_none {loop : LoopCode} {s : Scene} (h : loop.Idles s) (fuel : Nat) :
    evalLoop m maxSteps fuel depth loop s = none ∧ evalTest m maxSteps fuel depth loop s = none := by
  have hempty : ∀ {k : Scene → Option (Exit × Scene)} (fuel : Nat), k s = none →
      andThen (evalBody m maxSteps fuel depth [] s) k = none := by
    intro k fuel hk
    cases fuel with
    | zero => rfl
    | succ fuel => exact hk
  obtain ⟨condition, hint, hne⟩ := h.holds
  induction fuel with
  | zero => exact ⟨rfl, rfl⟩
  | succ fuel ih =>
    constructor
    · rw [evalLoop, h.header_eq]
      exact hempty fuel ih.2
    · rw [evalTest, hint]
      simp only [if_neg hne, h.body_eq]
      exact hempty fuel ih.1

theorem loopResult_eq_none {loop : LoopCode} {s : Scene} (h : loop.Idles s) :
    loopResult m maxSteps depth loop s = none :=
  (congrArg limit (funext fun fuel => (h.eval_eq_none fuel).1)).trans (limit_const none)

theorem instResult_of_spent {s : Scene} (h : maxSteps < s.steps + 1) (inst : Inst) :
    instResult m maxSteps depth inst s =
      some (.failed (.budgetExhausted maxSteps s.active.function.name), { s with steps := s.steps + 1 }) :=
  ((stable_inst inst s).limit_eq fun _ => by rw [evalInst, if_pos h]).trans (limit_const _)

theorem instResult_of_error {s : Scene} {inst : Inst} {fault : Fault} (hle : ¬maxSteps < s.steps + 1)
    (h : s.active.effect m s.store inst = .error fault) :
    instResult m maxSteps depth inst s = some (.failed fault, { s with steps := s.steps + 1 }) := by
  refine ((stable_inst inst s).limit_eq fun fuel => ?_).trans (limit_const _)
  rw [evalInst, if_neg hle]
  cases inst with
  | branch condition thenBody elseBody =>
    have hint : s.active.int condition = .error fault := by
      cases hint : s.active.int condition with
      | error fault' =>
        rw [Activation.effect, hint] at h
        cases h
        rfl
      | ok x =>
        rw [Activation.effect, hint] at h
        cases h
    simp only [hint]
  | loop => cases h
  | _ => simp only [h]

theorem functionAnswer_of_unknown {id : FunctionId} (hf : m.function? id = none) (args : List Value)
    (store : Store) (steps : Nat) : functionAnswer m maxSteps depth id args store steps =
      some ⟨.error (.functionUnknown id), store, steps⟩ :=
  ((stable_function id args store steps).limit_eq fun _ => by rw [evalFunction, hf]).trans (limit_const _)

theorem functionAnswer_of_error {id : FunctionId} {f : Lir.Function} {args : List Value} {fault : Fault}
    (hf : m.function? id = some f) (ha : Activation.enter f args none = .error fault) (store : Store)
    (steps : Nat) :
    functionAnswer m maxSteps depth id args store steps = some ⟨.error fault, store, steps⟩ :=
  ((stable_function id args store steps).limit_eq fun _ => by rw [evalFunction, hf]; simp only [ha]).trans
    (limit_const _)

theorem functionAnswer_of_ok {id : FunctionId} {f : Lir.Function} {args : List Value} {a : Activation}
    (hf : m.function? id = some f) (ha : Activation.enter f args none = .ok a) (store : Store) (steps : Nat) :
    functionAnswer m maxSteps depth id args store steps =
      (bodyResult m maxSteps depth f.body ⟨{ a with blocks := [] }, store, steps⟩).map fun (exit, s) =>
        s.leave exit :=
  ((stable_function id args store steps).limit_eq fun _ => by rw [evalFunction, hf]; simp only [ha]).trans
    ((stable_body f.body _).limit_map _)

end StaticChain.Machine

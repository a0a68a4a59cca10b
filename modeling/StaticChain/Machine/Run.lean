import StaticChain.Machine.Activation

/-!
# Running modules

A `Machine` runs the functions of a module one call after another. Its store and its count of
executed instructions live on from call to call, and it never executes more instructions than its
budget. `Machine.run` is the loop: closing blocks costs nothing, an instruction costs one step, and
the budget that is left is what the loop recurses on.

A call ends with a value, a fault, or not at all: a loop without any instruction whose condition
holds runs forever and spends no step. Whichever way it ends, the stack objects of all its
activations are released.
-/

namespace StaticChain

open Lir (ValueId FunctionId)

namespace Machine

/-- How a call ends. -/
inductive Outcome where
  | returned (value : Option Value)
  | failed (fault : Fault)
  | diverged
deriving DecidableEq, Inhabited, Repr

/-- The activations that wait for the active one, innermost first, with their number. -/
structure CallStack where
  waiting : List Activation
  depth : Nat
  depth_eq : depth = waiting.length

namespace CallStack

def empty : CallStack := ⟨[], 0, rfl⟩

instance : Inhabited CallStack := ⟨empty⟩

def push (c : CallStack) (a : Activation) : CallStack :=
  ⟨a :: c.waiting, c.depth + 1, by simp [c.depth_eq]⟩

/-- The innermost activation and those around it. -/
def pop? : CallStack → Option (Activation × CallStack)
  | ⟨[], _, _⟩ => none
  | ⟨a :: waiting, depth, h⟩ => some (a, ⟨waiting, depth - 1, by simp [h]⟩)

end CallStack

/-- A call while it runs. -/
structure State where
  active : Activation
  callers : CallStack
  store : Store
deriving Inhabited

namespace State

/-- Releases the stack objects of all activations. -/
def unwind (s : State) : Store :=
  s.callers.waiting.foldl (fun store a => store.releaseAll a.owned)
    (s.store.releaseAll s.active.owned)

/-- What follows an instruction. -/
inductive Progress where
  | running (state : State)
  | stopped (outcome : Outcome) (store : Store)
deriving Inhabited

def fail (s : State) (fault : Fault) : Progress := .stopped (.failed fault) s.unwind

/-- Calls a function. The depth of calls is checked before the function is looked up. -/
def call (m : Lir.Module) (s : State) (dest : Option ValueId) (function : FunctionId)
    (args : List Value) : Progress :=
  if s.callers.depth + 1 ≥ maxDepth then s.fail (.depthExceeded s.active.function.name)
  else
    match m.function? function with
    | none => s.fail (.functionUnknown function)
    | some function =>
      match Activation.enter function args dest with
      | .error fault => s.fail fault
      | .ok callee => .running ⟨callee, s.callers.push s.active, s.store⟩

/-- Gives a result back to the caller, or ends the call. -/
def ret : State → Option Value → Progress
  | ⟨active, callers, store⟩, value =>
    let store := store.releaseAll active.owned
    match callers.pop? with
    | none => .stopped (.returned value) store
    | some (caller, callers) =>
      match active.dest, value with
      | some dest, some value => .running ⟨caller.define dest value, callers, store⟩
      | _, _ => .running ⟨caller, callers, store⟩

/-- Carries out what an instruction does. -/
def apply (m : Lir.Module) : State → Effect → Progress
  | ⟨active, callers, store⟩, .define dest value =>
    .running ⟨active.define dest value, callers, store⟩
  | ⟨active, callers, store⟩, .assign target value =>
    .running ⟨active.assign target value, callers, store⟩
  | ⟨active, callers, store⟩, .allocate dest struct kind slots =>
    let object := store.next
    let active := active.define dest (.object object)
    let active := match kind with
      | .stack => { active with owned := object :: active.owned }
      | .heap => active
    .running ⟨active, callers, store.allocate struct kind slots⟩
  | ⟨active, callers, store⟩, .write object slot value =>
    .running ⟨active, callers, store.set object slot value⟩
  | ⟨active, callers, store⟩, .enter block =>
    .running ⟨active.openBlock block, callers, store⟩
  | s, .call dest function args => s.call m dest function args
  | s, .ret value => s.ret value

/-- Executes an instruction. -/
def step (m : Lir.Module) (s : State) (inst : Lir.Inst) : Progress :=
  match s.active.effect m s.store inst with
  | .error fault => s.fail fault
  | .ok effect => s.apply m effect

end State

/-- How a call ended, the store it left and the instructions it executed. -/
structure Result where
  outcome : Outcome
  store : Store
  steps : Nat
deriving Inhabited

/-- Takes an instruction out of the open blocks. -/
def State.take : State → List Block → State
  | ⟨active, callers, store⟩, blocks => ⟨{ active with blocks }, callers, store⟩

/-- Runs until the call ends. The instruction for which nothing is left of the budget is counted and
not executed. -/
def run (m : Lir.Module) (maxSteps : Nat) : (left : Nat) → State → (steps : Nat) → Result
  | left, s, steps =>
    match s.active.settle s.active.blocks with
    | .fault fault => ⟨.failed fault, s.unwind, steps⟩
    | .stuck => ⟨.diverged, s.unwind, steps⟩
    | .next inst blocks =>
      match left with
      | 0 => ⟨.failed (.budgetExhausted maxSteps s.active.function.name), s.unwind, steps + 1⟩
      | left + 1 =>
        match (s.take blocks).step m inst with
        | .stopped outcome store => ⟨outcome, store, steps + 1⟩
        | .running s => run m maxSteps left s (steps + 1)

end Machine

/-- A module with the budget, the store and the step count of the calls made so far. -/
structure Machine where
  module : Lir.Module
  maxSteps : Nat
  store : Machine.Store
  /-- The instructions executed so far, and those for which the budget was too small. -/
  steps : Nat
deriving Inhabited

namespace Machine

/-- The budget where none is asked for. -/
def defaultMaxSteps : Nat := 10000000

/-- A machine before its first call. -/
def boot (module : Lir.Module) (maxSteps : Nat) : Machine := ⟨module, maxSteps, .empty, 0⟩

/-- Calls a function with the arguments that it takes, a context included. -/
def call (machine : Machine) (id : FunctionId) (args : List Value) : Outcome × Machine :=
  match machine.module.function? id with
  | none => (.failed (.functionUnknown id), machine)
  | some function =>
    match Activation.enter function args none with
    | .error fault => (.failed fault, machine)
    | .ok active =>
      match machine with
      | ⟨module, maxSteps, store, steps⟩ =>
        let result := run module maxSteps (maxSteps - steps) ⟨active, .empty, store⟩ steps
        (result.outcome, ⟨module, maxSteps, result.store, result.steps⟩)

/-- Calls a function at top level with integers. -/
def callByName (machine : Machine) (name : String) (args : List Int64) : Outcome × Machine :=
  match machine.module.findFunction? name with
  | none => (.failed (.entryUnknown name), machine)
  | some function =>
    if function.hasContext then (.failed (.entryNested name), machine)
    else if function.params.length ≠ args.length ∨ function.params.any (· != .i64) then
      (.failed (.entryParams name function.params.length), machine)
    else machine.call function.id (args.map .int)

end Machine

end StaticChain

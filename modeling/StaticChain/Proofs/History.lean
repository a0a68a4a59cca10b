import StaticChain.Proofs.Simulation

/-!
# Calls do not depend on earlier ones

A call by name is given integers only, so whatever it reaches it allocates itself, and what earlier calls
left in the store is out of its reach. It therefore runs as on a new machine, but with the numbers of its
objects after those that are there (`shift`): the store is the one of the new machine put on top of the
earlier objects (`Store.onTop`). Each instruction does the same on both (`shifts_effect`, `State.onTop_step`),
and so does a whole call (`callByName_onTop`), as long as neither runs out of steps.
-/

namespace StaticChain

open Lir (ValueId FunctionId Inst)

namespace Machine

/-! ## Objects with higher numbers -/

def ObjectId.shift (n : Nat) (id : ObjectId) : ObjectId := ⟨id.index + n⟩

def Value.shift (n : Nat) : Value → Value
  | .int x => .int x
  | .null => .null
  | .object id => .object (id.shift n)
  | .slot owner index => .slot (owner.shift n) index
  | .closure function context => .closure function (context.map (ObjectId.shift n))

def Fault.shift (n : Nat) : Fault → Fault
  | .notAnInteger value => .notAnInteger (value.shift n)
  | .notASlot value => .notASlot (value.shift n)
  | .contextNotPointer value => .contextNotPointer (value.shift n)
  | .notAnObject value function => .notAnObject (value.shift n) function
  | .structMismatch object actual expected => .structMismatch (object.shift n) actual expected
  | .dangling object struct => .dangling (object.shift n) struct
  | .unallocated object => .unallocated (object.shift n)
  | .slotUnset slot object struct => .slotUnset slot (object.shift n) struct
  | .slotOutOfRange slot object => .slotOutOfRange slot (object.shift n)
  | cause => cause

def Outcome.shift (n : Nat) : Outcome → Outcome
  | .returned value => .returned (value.map (Value.shift n))
  | .failed cause => .failed (cause.shift n)
  | .diverged => .diverged

def Object.shift (n : Nat) (object : Object) : Object :=
  { object with slots := object.slots.map (Option.map (Value.shift n)) }

def Position.shift (n : Nat) : Position → Position
  | .next inst blocks => .next inst blocks
  | .fault cause => .fault (cause.shift n)
  | .stuck => .stuck

def Effect.shift (n : Nat) : Effect → Effect
  | .define dest value => .define dest (value.shift n)
  | .assign target value => .assign target (value.shift n)
  | .allocate dest struct kind slots => .allocate dest struct kind slots
  | .write object slot value => .write (object.shift n) slot (value.shift n)
  | .enter block => .enter block
  | .call dest function args => .call dest function (args.map (Value.shift n))
  | .ret value => .ret (value.map (Value.shift n))

def Activation.shift (n : Nat) (a : Activation) : Activation :=
  { a with
    values := a.values.map (Option.map (Value.shift n))
    locals := a.locals.map (Option.map (Value.shift n))
    owned := a.owned.map (ObjectId.shift n) }

def CallStack.shift (n : Nat) (c : CallStack) : CallStack :=
  ⟨c.waiting.map (Activation.shift n), c.depth, by simp [c.depth_eq]⟩

/-- The objects of a store after those of another one. -/
def Store.onTop (base s : Store) : Store where
  objects := base.objects ++ s.objects.map (Object.shift base.objects.size)
  stats := ⟨base.stats.heap + s.stats.heap, base.stats.stack + s.stats.stack,
    base.stats.released + s.stats.released⟩

def State.onTop (base : Store) (s : State) : State :=
  ⟨s.active.shift base.objects.size, s.callers.shift base.objects.size, base.onTop s.store⟩

def State.Progress.onTop (base : Store) : State.Progress → State.Progress
  | .running s => .running (s.onTop base)
  | .stopped outcome store => .stopped (outcome.shift base.objects.size) (base.onTop store)

/-- The same result with higher numbers, or the same fault. -/
inductive Shifts {α β : Type} (n : Nat) (f : α → β) : Except Fault α → Except Fault β → Prop
  | ok (a : α) : Shifts n f (.ok a) (.ok (f a))
  | error (cause : Fault) : Shifts n f (.error cause) (.error (cause.shift n))

theorem Shifts.result {α β : Type} {n : Nat} {f : α → β} {x : Except Fault α} {y : Except Fault β}
    (h : Shifts n f x y) :
    (∃ a, x = .ok a ∧ y = .ok (f a)) ∨ ∃ cause, x = .error cause ∧ y = .error (cause.shift n) := by
  cases h with
  | ok a => exact .inl ⟨a, rfl, rfl⟩
  | error cause => exact .inr ⟨cause, rfl, rfl⟩

theorem Shifts.bind {α β γ δ : Type} {n : Nat} {f : α → β} {g : γ → δ} {x : Except Fault α}
    {y : Except Fault β} {k : α → Except Fault γ} {k' : β → Except Fault δ} (h : Shifts n f x y)
    (hk : ∀ a, Shifts n g (k a) (k' (f a))) : Shifts n g (x >>= k) (y >>= k') := by
  cases h with
  | ok a => exact hk a
  | error cause => exact .error cause

/-! ## The store -/

namespace Store

variable (base s : Store)

theorem get?_onTop (id : ObjectId) :
    (base.onTop s).objects[(id.shift base.objects.size).index]? =
      s.objects[id.index]?.map (Object.shift base.objects.size) := by
  have hge : ¬id.index + base.objects.size < base.objects.size := by omega
  simp [onTop, ObjectId.shift, Array.getElem?_append, hge]

@[simp] theorem onTop_next : (base.onTop s).next = s.next.shift base.objects.size := by
  simp [next, onTop, ObjectId.shift, Nat.add_comm]

/-- What is modified on top leaves the objects below alone. -/
theorem append_modify (id : ObjectId) {f g : Object → Object}
    (hfg : ∀ object : Object, (g object).shift base.objects.size = f (object.shift base.objects.size)) :
    (base.objects ++ s.objects.map (Object.shift base.objects.size)).modify
        (id.shift base.objects.size).index f =
      base.objects ++ (s.objects.modify id.index g).map (Object.shift base.objects.size) := by
  refine Array.ext_getElem? fun i => ?_
  simp only [Array.getElem?_modify, Array.getElem?_append, ObjectId.shift, Array.getElem?_map]
  by_cases hi : i < base.objects.size
  · rw [if_pos hi, if_pos hi, if_neg (by omega)]
  · obtain ⟨j, rfl⟩ : ∃ j, i = j + base.objects.size := ⟨i - base.objects.size, by omega⟩
    simp only [if_neg hi, Nat.add_sub_cancel, Nat.add_right_cancel_iff]
    split
    · cases s.objects[j]? <;> simp [hfg]
    · rfl

@[simp] theorem onTop_allocate (struct : Lir.StructId) (kind : Lir.AllocKind) (slots : Nat) :
    base.onTop (s.allocate struct kind slots) = (base.onTop s).allocate struct kind slots := by
  cases kind <;> simp [onTop, allocate, Object.shift, Stats.allocated, Nat.add_assoc]

@[simp] theorem onTop_set (id : ObjectId) (slot : Nat) (value : Value) :
    base.onTop (s.set id slot value) =
      (base.onTop s).set (id.shift base.objects.size) slot (value.shift base.objects.size) := by
  simp only [onTop, set, mk.injEq, and_true]
  refine (append_modify base s id fun object => ?_).symm
  simp [Object.shift]

theorem isLive_onTop (id : ObjectId) : (base.onTop s).isLive (id.shift base.objects.size) = s.isLive id := by
  unfold isLive
  rw [get?_onTop, Option.any_map]
  rfl

@[simp] theorem onTop_release (id : ObjectId) :
    base.onTop (s.release id) = (base.onTop s).release (id.shift base.objects.size) := by
  unfold release
  rw [isLive_onTop]
  split
  · simp only [onTop, mk.injEq, Nat.add_assoc, and_true]
    refine (append_modify base s id (f := fun object => { object with live := false }) ?_).symm
    exact fun object => rfl
  · rfl

@[simp] theorem onTop_releaseAll (ids : List ObjectId) :
    base.onTop (s.releaseAll ids) = (base.onTop s).releaseAll (ids.map (ObjectId.shift base.objects.size)) := by
  unfold releaseAll
  induction ids generalizing s with
  | nil => rfl
  | cons id ids ih => rw [List.foldl_cons, ih, onTop_release, List.map_cons, List.foldl_cons]

theorem shifts_object (id : ObjectId) : Shifts base.objects.size (Object.shift base.objects.size)
    (s.object id) ((base.onTop s).object (id.shift base.objects.size)) := by
  unfold object
  rw [get?_onTop]
  cases s.objects[id.index]? with
  | none => exact .error _
  | some object =>
    simp only [Option.map_some, Object.shift]
    split
    · exact .ok _
    · exact .error _

theorem shifts_read (id : ObjectId) (slot : Nat) : Shifts base.objects.size (Value.shift base.objects.size)
    (s.read id slot) ((base.onTop s).read (id.shift base.objects.size) slot) := by
  refine (shifts_object base s id).bind fun object => ?_
  simp only [Object.shift, Array.getElem?_map]
  cases object.slots[slot]? with
  | none => exact .error _
  | some content =>
    cases content with
    | none => exact .error _
    | some value => exact .ok _

theorem shifts_checkSlot (id : ObjectId) (slot : Nat) : Shifts base.objects.size (fun u => u)
    (s.checkSlot id slot) ((base.onTop s).checkSlot (id.shift base.objects.size) slot) := by
  refine (shifts_object base s id).bind fun object => ?_
  simp only [Object.shift, Array.size_map]
  split
  · exact .ok _
  · exact .error _

end Store

/-! ## Activations -/

variable {n : Nat}

theorem shift_ofContext (context : Option ObjectId) :
    (Value.ofContext context).shift n = .ofContext (context.map (ObjectId.shift n)) := by
  cases context <;> rfl

theorem shifts_int? (v : Value) : Shifts n (fun x => x) v.int? (v.shift n).int? := by
  cases v with
  | int x => exact .ok x
  | _ => exact .error _

theorem shifts_slot? (v : Value) :
    Shifts n (fun at? => (at?.1.shift n, at?.2)) v.slot? (v.shift n).slot? := by
  cases v with
  | slot object index => exact .ok (object, index)
  | _ => exact .error _

theorem shifts_context? (v : Value) :
    Shifts n (Option.map (ObjectId.shift n)) v.context? (v.shift n).context? := by
  cases v with
  | null => exact .ok none
  | object id => exact .ok (some id)
  | _ => exact .error _

/-- Operators take and give integers. -/
theorem shifts_binary (op : Lir.BinOp) (x y : Int64) :
    Shifts n (Value.shift n) (binary op x y) (binary op x y) := by
  cases op with
  | div | rem =>
    simp only [binary]
    split
    · exact .error .divisionByZero
    · exact .ok (Value.int _)
  | _ => exact .ok (Value.int _)

theorem shift_unary (op : Lir.UnaryOp) (x : Int64) : (unary op x).shift n = unary op x := by
  cases op <;> rfl

namespace Activation

variable (a : Activation)

theorem shifts_value (id : ValueId) : Shifts n (Value.shift n) (a.value id) ((a.shift n).value id) := by
  unfold value
  simp only [shift, Array.getElem?_map]
  cases a.values[id.index]? with
  | none => exact .error _
  | some content =>
    cases content with
    | none => exact .error _
    | some v => exact .ok v

theorem shifts_local (id : Lir.LocalId) : Shifts n (Value.shift n) (a.local id) ((a.shift n).local id) := by
  unfold «local»
  simp only [shift, Array.getElem?_map]
  cases a.locals[id.index]? with
  | none => exact .error _
  | some content =>
    cases content with
    | none => exact .error _
    | some v => exact .ok v

theorem shifts_int (id : ValueId) : Shifts n (fun x => x) (a.int id) ((a.shift n).int id) :=
  (a.shifts_value id).bind shifts_int?

theorem shifts_base (id : ValueId) : Shifts n (ObjectId.shift n) (a.base id) ((a.shift n).base id) := by
  refine (a.shifts_value id).bind fun v => ?_
  cases v with
  | object id => exact .ok id
  | _ => exact .error _

theorem shifts_values (ids : List ValueId) :
    Shifts n (List.map (Value.shift n)) (ids.mapM a.value) (ids.mapM (a.shift n).value) := by
  induction ids with
  | nil => exact .ok []
  | cons id ids ih =>
    rw [List.mapM_cons, List.mapM_cons]
    exact (a.shifts_value id).bind fun v => ih.bind fun vs => .ok (v :: vs)

theorem shift_define (id : ValueId) (v : Value) :
    (a.define id v).shift n = (a.shift n).define id (v.shift n) := by
  simp [define, shift]

theorem shift_assign (id : Lir.LocalId) (v : Value) :
    (a.assign id v).shift n = (a.shift n).assign id (v.shift n) := by
  simp [assign, shift]

theorem shift_round (loop : LoopCode) (outer : List Block) : (loop.round outer).shift n = loop.round outer := by
  obtain ⟨header, condition, body⟩ := loop
  cases body <;> cases header <;> rfl

/-- What follows the header of a loop, once its condition is read. -/
def tested (a : Activation) (loop : LoopCode) (outer : List Block) : Except Fault Int64 → Position
  | .error fault => .fault fault
  | .ok condition => if condition = 0 then a.settle outer else loop.round outer

theorem settle_header (loop : LoopCode) (outer : List Block) :
    a.settle (⟨[], .header loop⟩ :: outer) = a.tested loop outer (a.int loop.condition) := rfl

theorem settle_body_nil (condition : ValueId) (body : List Inst) (outer : List Block) :
    a.settle (⟨[], .body ⟨[], condition, body⟩⟩ :: outer) =
      a.tested ⟨[], condition, body⟩ outer (a.int condition) := rfl

variable {a} in
/-- The condition is the same integer, so the same block follows. -/
theorem shift_tested {outer : List Block} (houter : (a.shift n).settle outer = (a.settle outer).shift n)
    (loop : LoopCode) {x y : Except Fault Int64} (h : Shifts n (fun x => x) x y) :
    (a.shift n).tested loop outer y = (a.tested loop outer x).shift n := by
  cases h with
  | error cause => rfl
  | ok condition =>
    simp only [tested]
    split
    · exact houter
    · exact (shift_round loop outer).symm

/-- The same blocks are closed. -/
theorem shift_settle (blocks : List Block) : (a.shift n).settle blocks = (a.settle blocks).shift n := by
  induction blocks with
  | nil => rfl
  | cons block outer ih =>
    obtain ⟨rest, kind⟩ := block
    cases rest with
    | cons inst rest => rfl
    | nil =>
      cases kind with
      | straight => exact ih
      | header loop =>
        rw [settle_header, settle_header]
        exact shift_tested ih loop (a.shifts_int loop.condition)
      | body loop =>
        obtain ⟨header, condition, body⟩ := loop
        cases header with
        | cons inst rest => rfl
        | nil =>
          rw [settle_body_nil, settle_body_nil]
          exact shift_tested ih ⟨[], condition, body⟩ (a.shifts_int condition)

/-- The arguments of a call are put into its first locals. -/
def setArgs (args : List Value) (first : Nat) (locals : Array (Option Value)) : Array (Option Value) :=
  (args.zipIdx first).foldl (fun locals arg => locals.setIfInBounds arg.2 (some arg.1)) locals

theorem enter_eq (f : Lir.Function) (args : List Value) (dest : Option ValueId) :
    enter f args dest =
      if args.length = f.callParams.length then
        .ok ⟨f, Array.replicate f.valueTypes.size none, setArgs args 0 (Array.replicate f.locals.size none),
          [], [⟨f.body, .straight⟩], dest⟩
      else .error (.argumentCount f.name f.callParams.length args.length) := rfl

theorem setArgs_shift (args : List Value) (first : Nat) (locals : Array (Option Value)) :
    setArgs (args.map (Value.shift n)) first (locals.map (Option.map (Value.shift n))) =
      (setArgs args first locals).map (Option.map (Value.shift n)) := by
  induction args generalizing first locals with
  | nil => rfl
  | cons arg args ih =>
    have hnext := ih (first + 1) (locals.setIfInBounds first (some arg))
    rw [Array.map_setIfInBounds, Option.map_some] at hnext
    exact hnext

/-- A call starts with the same arguments. -/
theorem shifts_enter (f : Lir.Function) (args : List Value) (dest : Option ValueId) :
    Shifts n (shift n) (enter f args dest) (enter f (args.map (Value.shift n)) dest) := by
  rw [enter_eq, enter_eq, List.length_map]
  split
  · have hlocals := setArgs_shift (n := n) args 0 (Array.replicate f.locals.size none)
    rw [Array.map_replicate, Option.map_none] at hlocals
    have henter := Shifts.ok (n := n) (f := shift n)
      ⟨f, Array.replicate f.valueTypes.size none, setArgs args 0 (Array.replicate f.locals.size none),
        [], [⟨f.body, .straight⟩], dest⟩
    simpa only [shift, Array.map_replicate, Option.map_none, List.map_nil, hlocals] using henter
  · exact .error _

/-- An instruction does the same, with higher numbers. -/
theorem shifts_effect (m : Lir.Module) (base s : Store) (inst : Inst) :
    Shifts base.objects.size (Effect.shift base.objects.size) (a.effect m s inst)
      ((a.shift base.objects.size).effect m (base.onTop s) inst) := by
  cases inst with
  | const dest x => exact .ok (Effect.define dest (.int x))
  | null dest => exact .ok (Effect.define dest .null)
  | binary dest op lhs rhs =>
    exact (a.shifts_int lhs).bind fun x => (a.shifts_int rhs).bind fun y =>
      (shifts_binary op x y).bind fun v => .ok (Effect.define dest v)
  | unary dest op operand =>
    refine (a.shifts_int operand).bind fun x => ?_
    have hunary := Shifts.ok (n := base.objects.size) (f := Effect.shift base.objects.size)
      (Effect.define dest (unary op x))
    rwa [Effect.shift, shift_unary] at hunary
  | localGet dest source => exact (a.shifts_local source).bind fun v => .ok (Effect.define dest v)
  | localSet target value =>
    refine (a.shifts_value value).bind fun v => ?_
    simp only [shift, Array.size_map]
    split
    · exact .ok (Effect.assign target v)
    · exact .error _
  | alloc dest struct kind =>
    simp only [effect]
    cases m.struct? struct with
    | none => exact .error _
    | some layout => exact .ok (Effect.allocate dest struct kind layout.slots.length)
  | fieldAddr dest object struct slot =>
    refine (a.shifts_base object).bind fun id => (Store.shifts_object base s id).bind fun found => ?_
    change Shifts _ _ (if found.struct = struct then _ else _) (if found.struct = struct then _ else _)
    split
    · exact .ok (Effect.define dest (.slot id slot))
    · exact .error _
  | load dest addr ty =>
    exact (a.shifts_value addr).bind fun v => (shifts_slot? v).bind fun place =>
      (Store.shifts_read base s place.1 place.2).bind fun w => .ok (Effect.define dest w)
  | store addr value ty =>
    exact (a.shifts_value addr).bind fun v => (shifts_slot? v).bind fun place =>
      (a.shifts_value value).bind fun w => (Store.shifts_checkSlot base s place.1 place.2).bind fun _ =>
        .ok (Effect.write place.1 place.2 w)
  | call dest function args =>
    exact (a.shifts_values args).bind fun vs => .ok (Effect.call dest function vs)
  | makeClosure dest function context =>
    exact (a.shifts_value context).bind fun v => (shifts_context? v).bind fun c =>
      .ok (Effect.define dest (.closure function c))
  | callClosure dest closure args signature =>
    refine (a.shifts_value closure).bind fun v => ?_
    cases v with
    | closure function context =>
      refine (a.shifts_values args).bind fun vs => ?_
      have hcall := Shifts.ok (n := base.objects.size) (f := Effect.shift base.objects.size)
        (Effect.call dest function ((if (m.function? function).any Lir.Function.hasContext
          then [Value.ofContext context] else []) ++ vs))
      rw [Effect.shift, List.map_append, apply_ite (List.map _), List.map_singleton, List.map_nil,
        shift_ofContext] at hcall
      exact hcall
    | _ => exact .error _
  | branch condition thenBody elseBody =>
    exact (a.shifts_int condition).bind fun x =>
      .ok (Effect.enter ⟨if x = 0 then elseBody else thenBody, .straight⟩)
  | loop header condition body => exact .ok (Effect.enter ⟨header, .header ⟨header, condition, body⟩⟩)
  | ret value =>
    cases value with
    | none => exact .ok (Effect.ret none)
    | some value => exact (a.shifts_value value).bind fun v => .ok (Effect.ret (some v))
  | unreachable => exact .error _

end Activation

/-! ## States -/

namespace State

variable (base : Store) (s : State) (m : Lir.Module)

theorem onTop_unwind : (s.onTop base).unwind = base.onTop s.unwind := by
  simp [unwind_eq, onTop, reachOf, CallStack.shift, Activation.shift, List.flatMap_map, List.map_flatMap]

theorem onTop_fail (cause : Fault) :
    (s.onTop base).fail (cause.shift base.objects.size) = (s.fail cause).onTop base := by
  simp [fail, Progress.onTop, Outcome.shift, onTop_unwind]

theorem onTop_call (dest : Option ValueId) (function : FunctionId) (args : List Value) :
    (s.onTop base).call m dest function (args.map (Value.shift base.objects.size)) =
      (s.call m dest function args).onTop base := by
  unfold call
  have hdepth : (s.onTop base).callers.depth = s.callers.depth := rfl
  rw [hdepth]
  split
  · exact s.onTop_fail base (.depthExceeded s.active.function.name)
  cases m.function? function with
  | none => exact s.onTop_fail base (.functionUnknown function)
  | some f =>
    obtain ⟨callee, henter, hshifted⟩ | ⟨cause, henter, hshifted⟩ :=
      (Activation.shifts_enter (n := base.objects.size) f args dest).result
    · simp only [henter, hshifted]
      rfl
    · simp only [henter, hshifted]
      exact s.onTop_fail base cause

theorem onTop_ret (value : Option Value) :
    (s.onTop base).ret (value.map (Value.shift base.objects.size)) = (s.ret value).onTop base := by
  obtain ⟨active, ⟨waiting, depth, hdepth⟩, store⟩ := s
  simp only [onTop, ret, ← Store.onTop_releaseAll, Activation.shift]
  cases waiting with
  | nil => rfl
  | cons caller waiting =>
    simp only [CallStack.shift, List.map_cons, CallStack.pop?]
    cases active.dest with
    | none => rfl
    | some dest =>
      cases value with
      | none => rfl
      | some v => simp [Progress.onTop, onTop, CallStack.shift, Activation.shift_define]

theorem onTop_apply (effect : Effect) :
    (s.onTop base).apply m (effect.shift base.objects.size) = (s.apply m effect).onTop base := by
  cases effect with
  | define dest value => simp [onTop, Effect.shift, apply, Progress.onTop, Activation.shift_define]
  | assign target value => simp [onTop, Effect.shift, apply, Progress.onTop, Activation.shift_assign]
  | allocate dest struct kind slots =>
    cases kind <;>
      simp [onTop, Effect.shift, apply, Progress.onTop, Activation.shift, Activation.define, Value.shift]
  | write object slot value => simp [onTop, Effect.shift, apply, Progress.onTop]
  | enter block => rfl
  | call dest function args => exact s.onTop_call base m dest function args
  | ret value => exact s.onTop_ret base value

/-- The step is the same on top of other objects. -/
theorem onTop_step (inst : Inst) : (s.onTop base).step m inst = (s.step m inst).onTop base := by
  have heffect := s.active.shifts_effect m base s.store inst
  unfold step
  have hstate : (s.onTop base).active.effect m (s.onTop base).store inst =
    (s.active.shift base.objects.size).effect m (base.onTop s.store) inst := rfl
  rw [hstate]
  obtain ⟨effect, hdone, hshifted⟩ | ⟨cause, hdone, hshifted⟩ := heffect.result
  · simp only [hdone, hshifted]
    exact s.onTop_apply base m effect
  · simp only [hdone, hshifted]
    exact s.onTop_fail base cause

end State

/-! ## Runs and calls -/

variable {m : Lir.Module}

theorem le_steps_run (maxSteps left steps : Nat) (s : State) : steps ≤ (run m maxSteps left s steps).steps := by
  induction left generalizing s steps with
  | zero =>
    unfold run
    split <;> simp
  | succ left ih =>
    unfold run
    split
    · simp
    · simp
    · simp only
      split
      · simp
      · exact Nat.le_of_succ_le (ih (steps + 1) _)

/-- A run that does not run out of steps is the same on top of other objects, from any step count on, if as
many steps are left as it takes. -/
theorem run_onTop (base : Store) {maxSteps maxSteps' left left' steps steps' k : Nat} {s : State}
    (hk : (run m maxSteps left s steps).steps = steps + k)
    (hends : ¬(run m maxSteps left s steps).outcome.IsExhausted) (hleft : k ≤ left') :
    run m maxSteps' left' (s.onTop base) steps' =
      ⟨(run m maxSteps left s steps).outcome.shift base.objects.size,
        base.onTop (run m maxSteps left s steps).store, steps' + k⟩ := by
  have hsettle : (s.onTop base).active.settle (s.onTop base).active.blocks =
      (s.active.settle s.active.blocks).shift base.objects.size := s.active.shift_settle s.active.blocks
  induction left generalizing s left' steps steps' k with
  | zero =>
    unfold run at hk hends ⊢
    rw [hsettle]
    cases hset : s.active.settle s.active.blocks with
    | fault _ | stuck =>
      simp only [hset] at hk
      obtain rfl : k = 0 := by omega
      simp [Position.shift, State.onTop_unwind, Outcome.shift]
    | next inst blocks =>
      simp only [hset] at hends
      exact absurd ⟨_, _, rfl⟩ hends
  | succ left ih =>
    unfold run at hk hends ⊢
    rw [hsettle]
    cases hset : s.active.settle s.active.blocks with
    | fault _ | stuck =>
      simp only [hset] at hk
      obtain rfl : k = 0 := by omega
      simp [Position.shift, State.onTop_unwind, Outcome.shift]
    | next inst blocks =>
      have htake : (s.onTop base).take blocks = (s.take blocks).onTop base := rfl
      have hstep := (s.take blocks).onTop_step base m inst
      simp only [hset, Position.shift, htake, hstep] at hk hends ⊢
      cases hprogress : (s.take blocks).step m inst with
      | stopped outcome store =>
        simp only [hprogress] at hk
        obtain rfl : k = 1 := by omega
        obtain ⟨left', rfl⟩ : ∃ l, left' = l + 1 := ⟨left' - 1, by omega⟩
        rfl
      | running next =>
        simp only [hprogress] at hk hends ⊢
        have hle := le_steps_run (m := m) maxSteps left (steps + 1) next
        obtain ⟨k, rfl⟩ : ∃ j, k = j + 1 := ⟨k - 1, by omega⟩
        obtain ⟨left', rfl⟩ : ∃ l, left' = l + 1 := ⟨left' - 1, by omega⟩
        simp only [State.Progress.onTop]
        rw [ih (k := k) (by omega) hends (by omega) (next.active.shift_settle _)]
        simp only [Nat.add_assoc, Nat.add_comm 1 k]

@[simp] theorem module_boot (m : Lir.Module) (budget : Nat) : (boot m budget).module = m := rfl

theorem boot_onTop (machine : Machine) (budget : Nat) :
    machine.store.onTop (boot machine.module budget).store = machine.store := by
  simp [boot, Store.onTop, Store.empty]

/-- A function is entered with integers, and runs as on a new machine. -/
theorem call_shift (machine : Machine) (id : FunctionId) (args : List Int64) {budget : Nat} {outcome : Outcome}
    {fresh : Machine} (hcall : (boot machine.module budget).call id (args.map .int) = (outcome, fresh))
    (hends : ¬outcome.IsExhausted) (hleft : fresh.steps ≤ machine.maxSteps - machine.steps) :
    machine.call id (args.map .int) = (outcome.shift machine.store.objects.size,
      { machine with store := machine.store.onTop fresh.store, steps := machine.steps + fresh.steps }) := by
  have hboot := machine.boot_onTop budget
  obtain ⟨m, maxSteps, store, steps⟩ := machine
  have hints : (args.map Value.int).map (Value.shift store.objects.size) = args.map Value.int := by
    simp [Function.comp_def, Value.shift]
  unfold Machine.call at hcall ⊢
  simp only [boot] at hcall hboot ⊢
  cases hf : m.function? id with
  | none =>
    simp only [hf] at hcall
    cases hcall
    simp [hboot, Outcome.shift, Fault.shift]
  | some f =>
    simp only [hf] at hcall
    obtain ⟨a, henter, hshifted⟩ | ⟨cause, henter, hshifted⟩ :=
      (Activation.shifts_enter (n := store.objects.size) f (args.map .int) none).result
    · rw [hints] at hshifted
      simp only [henter] at hcall
      simp only [hshifted]
      cases hcall
      have hstart : (⟨a.shift store.objects.size, .empty, store⟩ : State) =
          State.onTop store ⟨a, .empty, .empty⟩ := by
        simp [State.onTop, CallStack.shift, CallStack.empty, hboot]
      rw [hstart, run_onTop store (Nat.zero_add _).symm hends hleft]
    · rw [hints] at hshifted
      simp only [henter] at hcall
      simp only [hshifted]
      cases hcall
      simp [hboot, Outcome.shift]

/-- What a name is refused for does not depend on the store. -/
theorem callByName_shift (machine : Machine) (name : String) (args : List Int64) {budget : Nat}
    {outcome : Outcome} {fresh : Machine}
    (hcall : (boot machine.module budget).callByName name args = (outcome, fresh))
    (hends : ¬outcome.IsExhausted) (hleft : fresh.steps ≤ machine.maxSteps - machine.steps) :
    machine.callByName name args = (outcome.shift machine.store.objects.size,
      { machine with store := machine.store.onTop fresh.store, steps := machine.steps + fresh.steps }) := by
  have hrefused : machine = { machine with
      store := machine.store.onTop (boot machine.module budget).store
      steps := machine.steps + (boot machine.module budget).steps } := by
    rw [machine.boot_onTop budget]
    rfl
  unfold callByName at hcall ⊢
  rw [module_boot] at hcall
  cases hf : machine.module.findFunction? name with
  | none =>
    rw [hf] at hcall
    cases hcall
    exact congrArg _ hrefused
  | some f =>
    simp only [hf] at hcall ⊢
    split at hcall
    · rename_i hnested
      cases hcall
      rw [if_pos hnested]
      exact congrArg _ hrefused
    rename_i htop
    rw [if_neg htop]
    split at hcall
    · rename_i hparams
      cases hcall
      rw [if_pos hparams]
      exact congrArg _ hrefused
    · rename_i hparams
      rw [if_neg hparams]
      exact call_shift machine f.id args hcall hends hleft

/-- A call of integers does the same on any machine as on a new one, if the new one has steps enough and as
many are left on the other one. It takes as many steps, it succeeds or fails alike, and the objects in its
result have their numbers after those that are there. So an integer that it returns is the same. -/
theorem callByName_onTop (machine : Machine) (name : String) (args : List Int64) {budget : Nat}
    {outcome : Outcome} {fresh : Machine}
    (hcall : (boot machine.module budget).callByName name args = (outcome, fresh))
    (hends : ¬outcome.IsExhausted) (hleft : fresh.steps ≤ machine.maxSteps - machine.steps) :
    machine.callByName name args = (outcome.shift machine.store.objects.size,
        { machine with store := machine.store.onTop fresh.store, steps := machine.steps + fresh.steps }) ∧
      ∀ x, outcome = .returned (some (.int x)) → (machine.callByName name args).1 = outcome := by
  have hwhole := callByName_shift machine name args hcall hends hleft
  refine ⟨hwhole, ?_⟩
  rintro x rfl
  rw [hwhole]
  rfl

/-- A function that returns a pointer to its argument, and makes an object on the stack before. -/
def boxing : Lir.Module where
  structs := #[⟨⟨0⟩, "cell", ⟨0⟩, [.i64]⟩]
  functions := #[{
    id := ⟨0⟩
    name := "box"
    decl := ⟨0⟩
    hasContext := false
    params := [.i64]
    ret := some .ptr
    locals := #[.i64]
    valueTypes := #[.ptr, .ptr, .ptr, .i64]
    body := [.alloc ⟨0⟩ ⟨0⟩ .stack, .alloc ⟨1⟩ ⟨0⟩ .heap, .fieldAddr ⟨2⟩ ⟨1⟩ ⟨0⟩ 0, .localGet ⟨3⟩ ⟨0⟩,
      .store ⟨2⟩ ⟨3⟩ .i64, .ret (some ⟨1⟩)] }]

/-- A machine after two calls. -/
def boxed : Machine :=
  (((boot boxing 20).callByName "box" [1]).2.callByName "box" [2]).2

/-- The third call of a machine returns its sixth object where a new machine returns its second one, after
as many steps. -/
theorem callByName_onTop_boxing :
    boxed.store.objects.size = 4 ∧ boxed.steps = 12 ∧
      ((boot boxing 6).callByName "box" [3]).1 = .returned (some (.object ⟨1⟩)) ∧
      (boxed.callByName "box" [3]).1 = .returned (some (.object ⟨5⟩)) ∧
      (boxed.callByName "box" [3]).2.steps = 18 := by
  have hmodule : boxed.module = boxing := rfl
  have hsize : boxed.store.objects.size = 4 := by decide +kernel
  have hsteps : boxed.steps = 12 := by decide +kernel
  have hvalue : ((boot boxing 6).callByName "box" [3]).1 = .returned (some (.object ⟨1⟩)) := by
    decide +kernel
  have htaken : ((boot boxing 6).callByName "box" [3]).2.steps = 6 := by decide +kernel
  have hleft : boxed.maxSteps = 20 := rfl
  generalize hcall : (boot boxing 6).callByName "box" [3] = result at hvalue htaken ⊢
  obtain ⟨outcome, fresh⟩ := result
  dsimp only at hvalue htaken
  subst hvalue
  have hshifted := (callByName_onTop boxed "box" [3] (by rw [hmodule, hcall]) (by simp [Outcome.IsExhausted])
    (by omega)).1
  refine ⟨hsize, hsteps, rfl, ?_, ?_⟩
  · rw [hshifted, hsize]
    rfl
  · rw [hshifted, hsteps, htaken]

end Machine

end StaticChain

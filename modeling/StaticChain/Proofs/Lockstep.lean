import StaticChain.Machine.Run
import StaticChain.Proofs.OnHeap

/-!
# Two machines in step

A machine whose module allocates on the stack and the one that allocates everything on the heap make
the same steps, as long as no value leads to an object that was released (`Activation.Live`). The
states of the second are the states of the first with every object live and on the heap (`onHeap`).
Released objects are the only ones that could tell the two apart.
-/

namespace StaticChain

open Lir (ValueId FunctionId Inst)

namespace Machine

/-! ## States with everything on the heap -/

def Object.onHeap (o : Object) : Object := { o with kind := .heap, live := true }

def Store.onHeap (s : Store) : Store where
  objects := s.objects.map Object.onHeap
  stats := ⟨s.stats.heap + s.stats.stack, 0, 0⟩

def LoopCode.onHeap (loop : LoopCode) : LoopCode :=
  ⟨loop.header.map Inst.onHeap, loop.condition, loop.body.map Inst.onHeap⟩

def BlockKind.onHeap : BlockKind → BlockKind
  | .straight => .straight
  | .header loop => .header loop.onHeap
  | .body loop => .body loop.onHeap

def Block.onHeap (b : Block) : Block := ⟨b.rest.map Inst.onHeap, b.kind.onHeap⟩

def Activation.onHeap (a : Activation) : Activation :=
  { a with function := a.function.onHeap, owned := [], blocks := a.blocks.map Block.onHeap }

def Position.onHeap : Position → Position
  | .next inst blocks => .next inst.onHeap (blocks.map Block.onHeap)
  | .fault cause => .fault cause
  | .stuck => .stuck

def Effect.onHeap : Effect → Effect
  | .allocate dest struct _ slots => .allocate dest struct .heap slots
  | .enter block => .enter block.onHeap
  | effect => effect

def CallStack.onHeap (c : CallStack) : CallStack :=
  ⟨c.waiting.map Activation.onHeap, c.depth, by simp [c.depth_eq]⟩

def State.onHeap (s : State) : State := ⟨s.active.onHeap, s.callers.onHeap, s.store.onHeap⟩

def State.Progress.onHeap : State.Progress → State.Progress
  | .running s => .running s.onHeap
  | .stopped outcome store => .stopped outcome store.onHeap

def Result.onHeap (r : Result) : Result := { r with store := r.store.onHeap }

/-! ## The store -/

namespace Store

variable (s : Store)

@[simp] theorem onHeap_allocate (struct : Lir.StructId) (kind : Lir.AllocKind) (slots : Nat) :
    (s.allocate struct kind slots).onHeap = s.onHeap.allocate struct .heap slots := by
  cases kind <;> simp [allocate, onHeap, Object.onHeap, Stats.allocated, Nat.add_right_comm, Nat.add_assoc]

@[simp] theorem onHeap_next : s.onHeap.next = s.next := by
  simp [next, onHeap]

@[simp] theorem onHeap_set (id : ObjectId) (slot : Nat) (value : Value) :
    (s.set id slot value).onHeap = s.onHeap.set id slot value := by
  simp only [set, onHeap, mk.injEq, and_true]
  refine Array.ext_getElem? fun i => ?_
  simp only [Array.getElem?_map, Array.getElem?_modify]
  split
  · cases s.objects[i]? <;> rfl
  · rfl

@[simp] theorem onHeap_release (id : ObjectId) : (s.release id).onHeap = s.onHeap := by
  unfold release
  split
  · simp only [onHeap, mk.injEq, and_true]
    refine Array.ext_getElem? fun i => ?_
    simp only [Array.getElem?_map, Array.getElem?_modify]
    split
    · cases s.objects[i]? <;> rfl
    · rfl
  · rfl

@[simp] theorem onHeap_releaseAll (ids : List ObjectId) : (s.releaseAll ids).onHeap = s.onHeap := by
  unfold releaseAll
  induction ids generalizing s with
  | nil => rfl
  | cons id ids ih => rw [List.foldl_cons, ih, onHeap_release]

/-- An object that was not released is found in both stores. -/
theorem onHeap_object {s : Store} {id : ObjectId}
    (h : ∀ object, s.objects[id.index]? = some object → object.live = true) :
    s.onHeap.object id = (s.object id).map Object.onHeap := by
  unfold object
  cases ho : s.objects[id.index]? with
  | none => simp [onHeap, ho, Except.map]
  | some object => simp [onHeap, ho, h object ho, Object.onHeap, Except.map]

theorem onHeap_read {s : Store} {id : ObjectId} {slot : Nat}
    (h : ∀ object, s.objects[id.index]? = some object → object.live = true) :
    s.onHeap.read id slot = s.read id slot := by
  unfold read
  rw [onHeap_object h]
  cases s.object id <;> rfl

theorem onHeap_checkSlot {s : Store} {id : ObjectId} {slot : Nat}
    (h : ∀ object, s.objects[id.index]? = some object → object.live = true) :
    s.onHeap.checkSlot id slot = s.checkSlot id slot := by
  unfold checkSlot
  rw [onHeap_object h]
  cases s.object id <;> rfl

end Store

/-! ## Activations -/

/-- The object that a value leads to. -/
def Value.target? : Value → Option ObjectId
  | .object id => some id
  | .slot id _ => some id
  | _ => none

namespace Activation

/-- No value of the activation leads to an object that was released. -/
def Live (a : Activation) (s : Store) : Prop :=
  ∀ id value target, a.value id = .ok value → value.target? = some target →
    ∀ object, s.objects[target.index]? = some object → object.live = true

variable (a : Activation)

theorem onHeap_round (loop : LoopCode) (outer : List Block) :
    loop.onHeap.round (outer.map Block.onHeap) = (loop.round outer).onHeap := by
  obtain ⟨header, condition, body⟩ := loop
  cases body <;> cases header <;> rfl

theorem onHeap_settle (blocks : List Block) :
    a.onHeap.settle (blocks.map Block.onHeap) = (a.settle blocks).onHeap := by
  induction blocks with
  | nil => rfl
  | cons block outer ih =>
    have hint : ∀ id, a.onHeap.int id = a.int id := fun _ => rfl
    obtain ⟨rest, kind⟩ := block
    cases rest with
    | cons inst rest => rfl
    | nil =>
      cases kind with
      | straight => exact ih
      | header loop =>
        simp only [List.map_cons, Block.onHeap, List.map_nil, BlockKind.onHeap, settle, hint]
        have hcond : loop.onHeap.condition = loop.condition := rfl
        rw [hcond]
        cases a.int loop.condition with
        | error fault => rfl
        | ok condition =>
          simp only
          split
          · exact ih
          · exact onHeap_round loop outer
      | body loop =>
        obtain ⟨header, condition, body⟩ := loop
        cases header with
        | cons inst header => rfl
        | nil =>
          simp only [List.map_cons, Block.onHeap, List.map_nil, BlockKind.onHeap, settle,
            LoopCode.onHeap, hint]
          cases a.int condition with
          | error fault => rfl
          | ok value =>
            simp only
            split
            · exact ih
            · exact onHeap_round ⟨[], condition, body⟩ outer

theorem onHeap_enter (f : Lir.Function) (args : List Value) (dest : Option ValueId) :
    enter f.onHeap args dest = (enter f args dest).map onHeap := by
  unfold enter
  have hparams : f.onHeap.callParams = f.callParams := rfl
  simp only [hparams]
  split
  · rfl
  · rfl

variable {a}

/-! ### Instructions -/

@[simp] theorem onHeap_value : a.onHeap.value = a.value := rfl

@[simp] theorem onHeap_int : a.onHeap.int = a.int := rfl

@[simp] theorem onHeap_local : a.onHeap.local = a.local := rfl

@[simp] theorem onHeap_base : a.onHeap.base = a.base := rfl

theorem onHeap_any_hasContext (m : Lir.Module) (id : FunctionId) :
    (m.onHeap.function? id).any Lir.Function.hasContext = (m.function? id).any Lir.Function.hasContext := by
  simp only [Lir.Module.function?, Lir.Module.onHeap, Array.getElem?_map, Option.any_map]
  rfl

/-- What a live activation addresses was not released. -/
theorem Live.slot {s : Store} (h : a.Live s) {addr : ValueId} {v : Value} (hv : a.value addr = .ok v)
    {place : ObjectId × Nat} (hplace : v.slot? = .ok place) :
    ∀ object, s.objects[place.1.index]? = some object → object.live = true := by
  cases v with
  | slot o k =>
    cases hplace
    exact h addr _ o hv rfl
  | _ => exact absurd hplace throw_ne_ok

theorem Live.base {s : Store} (h : a.Live s) {r : ValueId} {o : ObjectId} (hb : a.base r = .ok o) :
    ∀ object, s.objects[o.index]? = some object → object.live = true := by
  unfold Activation.base at hb
  obtain ⟨v, hv, hb⟩ := bind_eq_ok.1 hb
  cases v with
  | object id =>
    cases hb
    exact h r _ o hv rfl
  | _ => exact absurd hb throw_ne_ok

/-- An instruction does the same in both machines. -/
theorem onHeap_effect {m : Lir.Module} {s : Store} (h : a.Live s) (inst : Inst) :
    a.onHeap.effect m.onHeap s.onHeap inst.onHeap = (a.effect m s inst).map Effect.onHeap := by
  cases inst with
  | const dest x => rfl
  | null dest => rfl
  | binary dest op lhs rhs =>
    simp only [Inst.onHeap, effect, onHeap_int]
    exact bind_eq_map_bind fun l _ => bind_eq_map_bind fun r _ => bind_eq_map_bind fun v _ => rfl
  | unary dest op operand =>
    simp only [Inst.onHeap, effect, onHeap_int]
    exact bind_eq_map_bind fun x _ => rfl
  | localGet dest source =>
    simp only [Inst.onHeap, effect, onHeap_local]
    exact bind_eq_map_bind fun v _ => rfl
  | localSet target value =>
    simp only [Inst.onHeap, effect, onHeap_value]
    refine bind_eq_map_bind fun v _ => ?_
    have hlocals : a.onHeap.locals = a.locals := rfl
    rw [hlocals]
    split <;> rfl
  | alloc dest struct kind =>
    simp only [Inst.onHeap, effect]
    have hstruct : m.onHeap.struct? struct = m.struct? struct := rfl
    rw [hstruct]
    rcases m.struct? struct with _ | layout <;> rfl
  | fieldAddr dest base struct slot =>
    simp only [Inst.onHeap, effect, onHeap_base]
    refine bind_eq_map_bind fun o ho => ?_
    rw [Store.onHeap_object (h.base ho)]
    cases s.object o with
    | error fault => rfl
    | ok object =>
      simp only [Except.map, bind, Except.bind, Object.onHeap]
      split <;> rfl
  | load dest addr ty =>
    simp only [Inst.onHeap, effect, onHeap_value]
    refine bind_eq_map_bind fun v hv => bind_eq_map_bind fun place hplace => ?_
    rw [Store.onHeap_read (h.slot hv hplace)]
    exact bind_eq_map_bind fun w _ => rfl
  | store addr value ty =>
    simp only [Inst.onHeap, effect, onHeap_value]
    refine bind_eq_map_bind fun v hv => bind_eq_map_bind fun place hplace => bind_eq_map_bind fun w _ => ?_
    rw [Store.onHeap_checkSlot (h.slot hv hplace)]
    exact bind_eq_map_bind fun _ _ => rfl
  | call dest function args =>
    simp only [Inst.onHeap, effect, onHeap_value]
    exact bind_eq_map_bind fun vs _ => rfl
  | makeClosure dest function context =>
    simp only [Inst.onHeap, effect, onHeap_value]
    exact bind_eq_map_bind fun v _ => bind_eq_map_bind fun o _ => rfl
  | callClosure dest closure args signature =>
    simp only [Inst.onHeap, effect, onHeap_value, onHeap_any_hasContext]
    refine bind_eq_map_bind fun v _ => ?_
    cases v with
    | closure function context => exact bind_eq_map_bind fun vs _ => rfl
    | _ => rfl
  | branch condition thenBody elseBody =>
    simp only [Inst.onHeap_branch, effect, onHeap_int]
    refine bind_eq_map_bind fun x _ => ?_
    simp only [pure, Except.pure, Except.map, Effect.onHeap, Block.onHeap, BlockKind.onHeap]
    split <;> rfl
  | loop header condition body =>
    simp only [Inst.onHeap_loop]
    rfl
  | ret value =>
    cases value with
    | none => rfl
    | some value =>
      simp only [Inst.onHeap, effect, onHeap_value]
      exact bind_eq_map_bind fun v _ => rfl
  | unreachable => rfl

end Activation

/-! ## States -/

namespace State

variable (s : State) (m : Lir.Module)

theorem unwind_eq_foldl (s : State) : s.unwind =
    (s.active :: s.callers.waiting).foldl (fun store a => store.releaseAll a.owned) s.store := rfl

@[simp] theorem onHeap_unwind : s.unwind.onHeap = s.store.onHeap := by
  rw [unwind_eq_foldl]
  generalize s.active :: s.callers.waiting = acts
  generalize s.store = store
  induction acts generalizing store with
  | nil => rfl
  | cons a acts ih => rw [List.foldl_cons, ih, Store.onHeap_releaseAll]

@[simp] theorem unwind_onHeap : s.onHeap.unwind = s.store.onHeap := by
  rw [unwind_eq_foldl]
  have howned : ∀ a ∈ s.onHeap.active :: s.onHeap.callers.waiting, a.owned = [] := by
    intro a ha
    rcases List.mem_cons.1 ha with rfl | ha
    · rfl
    · obtain ⟨b, -, rfl⟩ := List.mem_map.1 (show a ∈ s.callers.waiting.map Activation.onHeap from ha)
      rfl
  have hstore : s.onHeap.store = s.store.onHeap := rfl
  rw [hstore]
  generalize s.onHeap.active :: s.onHeap.callers.waiting = acts at howned
  induction acts with
  | nil => rfl
  | cons a acts ih =>
    rw [List.foldl_cons, howned a (by simp)]
    exact ih fun b hb => howned b (by simp [hb])

theorem onHeap_fail (fault : Fault) : s.onHeap.fail fault = (s.fail fault).onHeap := by
  simp [fail, Progress.onHeap]

theorem onHeap_call (dest : Option ValueId) (function : FunctionId) (args : List Value) :
    s.onHeap.call m.onHeap dest function args = (s.call m dest function args).onHeap := by
  unfold call
  have hdepth : s.onHeap.callers.depth = s.callers.depth := rfl
  have hname : s.onHeap.active.function.name = s.active.function.name := rfl
  have hfun : m.onHeap.function? function = (m.function? function).map Lir.Function.onHeap := by
    simp [Lir.Module.function?, Lir.Module.onHeap]
  rw [hdepth, hname, hfun]
  split
  · exact s.onHeap_fail _
  cases m.function? function with
  | none => exact s.onHeap_fail _
  | some f =>
    simp only [Option.map_some, Activation.onHeap_enter]
    cases Activation.enter f args dest with
    | error fault => exact s.onHeap_fail _
    | ok callee => rfl

theorem onHeap_ret (value : Option Value) : s.onHeap.ret value = (s.ret value).onHeap := by
  obtain ⟨active, ⟨waiting, depth, hdepth⟩, store⟩ := s
  have hreleased : store.onHeap.releaseAll active.onHeap.owned =
      (store.releaseAll active.owned).onHeap := by
    rw [Store.onHeap_releaseAll]
    rfl
  simp only [State.onHeap, ret, hreleased]
  cases waiting with
  | nil => rfl
  | cons caller waiting =>
    simp only [CallStack.onHeap, List.map_cons, CallStack.pop?]
    have hdest : active.onHeap.dest = active.dest := rfl
    rw [hdest]
    cases active.dest <;> cases value <;> rfl

theorem onHeap_apply (effect : Effect) :
    s.onHeap.apply m.onHeap effect.onHeap = (s.apply m effect).onHeap := by
  cases effect with
  | define dest value => rfl
  | assign target value => rfl
  | allocate dest struct kind slots =>
    simp only [State.onHeap, Effect.onHeap, apply, Progress.onHeap, Store.onHeap_next,
      Store.onHeap_allocate]
    cases kind <;> rfl
  | write object slot value =>
    simp [State.onHeap, Effect.onHeap, apply, Progress.onHeap]
  | enter block => rfl
  | call dest function args => exact s.onHeap_call m dest function args
  | ret value => exact s.onHeap_ret value

/-- The two machines make the same step. -/
theorem onHeap_step (h : s.active.Live s.store) (inst : Inst) :
    s.onHeap.step m.onHeap inst.onHeap = (s.step m inst).onHeap := by
  unfold step
  have heffect := Activation.onHeap_effect (m := m) h inst
  have hstate : s.onHeap.active.effect m.onHeap s.onHeap.store inst.onHeap =
      (s.active.effect m s.store inst).map Effect.onHeap := heffect
  rw [hstate]
  cases s.active.effect m s.store inst with
  | error fault => exact s.onHeap_fail fault
  | ok effect => exact s.onHeap_apply m effect

theorem onHeap_take (blocks : List Block) :
    s.onHeap.take (blocks.map Block.onHeap) = (s.take blocks).onHeap := rfl

end State

end Machine

end StaticChain

import StaticChain.Proofs.StackDiscipline

/-!
# Where frames live does not matter

The module that escape analysis gives and the one with every frame on the heap differ in allocation kinds
only, and no sequence of calls can tell them apart (`callAll_eq_of_policies`): the calls have the same
results, faults included, and take the same number of steps. So a frame that is on the stack is never used
after it was released.

A run of the first machine is a run of the second one step by step (`Owned.run_onHeap`), since every state
on its way respects ownership.
-/

namespace StaticChain

open Lir (ValueId FunctionId Inst)

namespace Machine

/-! ## Faults of a machine without released objects -/

/-- No object was released. -/
def Store.AllLive (s : Store) : Prop :=
  ∀ (id : ObjectId) (object : Object), s.objects[id.index]? = some object → object.live = true

theorem Store.allLive_onHeap (s : Store) : s.onHeap.AllLive := by
  intro id object h
  simp only [Store.onHeap, Array.getElem?_map] at h
  obtain ⟨object', -, rfl⟩ := Option.map_eq_some_iff.1 h
  rfl

variable {a : Activation} {m : Lir.Module} {s : Store} {o : ObjectId} {struct : Lir.StructId}

/-- The fault is the use of a released object. -/
def Fault.IsDangling (cause : Fault) : Prop := ∃ object struct, cause = .dangling object struct

/-- However the computation fails, it is not by the use of a released object. -/
def NeverDangles {α : Type} (x : Except Fault α) : Prop := ∀ cause, x = .error cause → ¬cause.IsDangling

namespace NeverDangles

variable {α β : Type}

theorem ok (y : α) : NeverDangles (.ok y) := nofun

theorem error {cause : Fault} (h : ∀ object struct, cause ≠ .dangling object struct) :
    NeverDangles (.error cause : Except Fault α) := by
  rintro _ ⟨⟩ ⟨object, struct, heq⟩
  exact h object struct heq

theorem bind {x : Except Fault α} {f : α → Except Fault β} (hx : NeverDangles x)
    (hf : ∀ y, NeverDangles (f y)) : NeverDangles (x >>= f) := by
  intro cause h
  rcases bind_eq_error.1 h with h | ⟨y, -, h⟩
  · exact hx cause h
  · exact hf y cause h

theorem mapM {f : α → Except Fault β} (hf : ∀ y, NeverDangles (f y)) (l : List α) :
    NeverDangles (l.mapM f) := by
  intro cause h
  obtain ⟨y, -, h⟩ := exists_of_mapM_eq_error h
  exact hf y cause h

end NeverDangles

theorem Store.neverDangles_object (h : s.AllLive) (id : ObjectId) : NeverDangles (s.object id) := by
  unfold Store.object
  split
  · exact .error (by simp)
  · rename_i object ho
    rw [h id object ho]
    exact .ok _

theorem Store.neverDangles_read (h : s.AllLive) (id : ObjectId) (slot : Nat) :
    NeverDangles (s.read id slot) := by
  refine (Store.neverDangles_object h id).bind fun object => ?_
  split
  · exact .ok _
  · exact .error (by simp)
  · exact .error (by simp)

theorem Store.neverDangles_checkSlot (h : s.AllLive) (id : ObjectId) (slot : Nat) :
    NeverDangles (s.checkSlot id slot) := by
  refine (Store.neverDangles_object h id).bind fun object => ?_
  split
  · exact .ok _
  · exact .error (by simp)

theorem neverDangles_binary (op : Lir.BinOp) (x y : Int64) : NeverDangles (Machine.binary op x y) := by
  cases op with
  | div | rem =>
    simp only [Machine.binary]
    split
    · exact .error (by simp)
    · exact .ok _
  | _ => exact .ok _

theorem Value.neverDangles_int? (v : Value) : NeverDangles v.int? := by
  cases v <;> first | exact .ok _ | exact .error (by simp)

theorem Value.neverDangles_slot? (v : Value) : NeverDangles v.slot? := by
  cases v <;> first | exact .ok _ | exact .error (by simp)

theorem Value.neverDangles_context? (v : Value) : NeverDangles v.context? := by
  cases v <;> first | exact .ok _ | exact .error (by simp)

namespace Activation

variable (a)

theorem neverDangles_value (id : ValueId) : NeverDangles (a.value id) := by
  unfold Activation.value
  split
  · exact .ok _
  · exact .error (by simp)

theorem neverDangles_int (id : ValueId) : NeverDangles (a.int id) :=
  (a.neverDangles_value id).bind fun v => v.neverDangles_int?

theorem neverDangles_local (id : Lir.LocalId) : NeverDangles (a.local id) := by
  unfold Activation.local
  split
  · exact .ok _
  · exact .error (by simp)

theorem neverDangles_base (id : ValueId) : NeverDangles (a.base id) := by
  refine (a.neverDangles_value id).bind fun v => ?_
  cases v <;> first | exact .ok _ | exact .error (by simp)

theorem neverDangles_enter (f : Lir.Function) (args : List Value) (dest : Option ValueId) :
    NeverDangles (Activation.enter f args dest) := by
  unfold Activation.enter
  simp only
  split
  · exact .ok _
  · exact .error (by simp)

theorem not_isDangling_settle {blocks : List Block} {cause : Fault}
    (hf : a.settle blocks = .fault cause) : ¬cause.IsDangling := by
  have hround : ∀ (loop : LoopCode) (outer : List Block), loop.round outer ≠ .fault cause := by
    intro loop outer h
    unfold LoopCode.round at h
    split at h <;> cases h
  induction blocks with
  | nil =>
    cases hf
    rintro ⟨_, _, ⟨⟩⟩
  | cons block outer ih =>
    obtain ⟨rest, kind⟩ := block
    cases rest with
    | cons inst rest => cases hf
    | nil =>
      cases kind with
      | straight => exact ih hf
      | header loop =>
        simp only [settle] at hf
        split at hf
        · cases hf
          exact a.neverDangles_int _ _ ‹_›
        · split at hf
          · exact ih hf
          · exact absurd hf (hround loop outer)
      | body loop =>
        simp only [settle] at hf
        split at hf
        · cases hf
        · split at hf
          · cases hf
            exact a.neverDangles_int _ _ ‹_›
          · split at hf
            · exact ih hf
            · exact absurd hf (hround loop outer)

theorem neverDangles_effect (h : s.AllLive) (inst : Inst) : NeverDangles (a.effect m s inst) := by
  cases inst with
  | const | null | loop => exact .ok _
  | binary dest op lhs rhs =>
    exact (a.neverDangles_int lhs).bind fun x => (a.neverDangles_int rhs).bind fun y =>
      (neverDangles_binary op x y).bind fun _ => .ok _
  | unary dest op operand => exact (a.neverDangles_int operand).bind fun _ => .ok _
  | localGet dest x => exact (a.neverDangles_local x).bind fun _ => .ok _
  | localSet x value =>
    refine (a.neverDangles_value value).bind fun v => ?_
    split
    · exact .ok _
    · exact .error (by simp)
  | alloc dest struct kind =>
    simp only [effect]
    split
    · exact .ok _
    · exact .error (by simp)
  | fieldAddr dest base struct slot =>
    refine (a.neverDangles_base base).bind fun o => (Store.neverDangles_object h o).bind fun object => ?_
    simp only
    split
    · exact .ok _
    · exact .error (by simp)
  | load dest addr ty =>
    exact (a.neverDangles_value addr).bind fun v => v.neverDangles_slot?.bind fun place =>
      (Store.neverDangles_read h place.1 place.2).bind fun _ => .ok _
  | store addr value ty =>
    exact (a.neverDangles_value addr).bind fun v => v.neverDangles_slot?.bind fun place =>
      (a.neverDangles_value value).bind fun _ =>
        (Store.neverDangles_checkSlot h place.1 place.2).bind fun _ => .ok _
  | call dest f args => exact (NeverDangles.mapM a.neverDangles_value args).bind fun _ => .ok _
  | makeClosure dest f context =>
    exact (a.neverDangles_value context).bind fun v => v.neverDangles_context?.bind fun _ => .ok _
  | callClosure dest closure args signature =>
    refine (a.neverDangles_value closure).bind fun v => ?_
    cases v with
    | closure f c => exact (NeverDangles.mapM a.neverDangles_value args).bind fun _ => .ok _
    | _ => exact .error (by simp)
  | branch condition thenBody elseBody => exact (a.neverDangles_int condition).bind fun _ => .ok _
  | ret value =>
    cases value with
    | none => exact .ok _
    | some value => exact (a.neverDangles_value value).bind fun _ => .ok _
  | unreachable => exact .error (by simp)

end Activation

/-- A step without released objects ends with no use of one. -/
theorem State.not_isDangling_step {s : State} (hs : s.store.AllLive) {inst : Inst} {cause : Fault}
    {store : Store} (h : s.step m inst = .stopped (.failed cause) store) : ¬cause.IsDangling := by
  obtain ⟨a, ⟨waiting, depth, hdepth⟩, st⟩ := s
  unfold State.step at h
  split at h
  · cases h
    exact a.neverDangles_effect hs inst _ ‹_›
  · rename_i e _
    cases e with
    | call dest f args =>
      simp only [State.apply, State.call, State.fail] at h
      split at h
      · cases h
        rintro ⟨_, _, ⟨⟩⟩
      · split at h
        · cases h
          rintro ⟨_, _, ⟨⟩⟩
        · split at h
          · cases h
            exact Activation.neverDangles_enter _ _ _ _ ‹_›
          · cases h
    | ret v =>
      cases waiting with
      | nil => cases h
      | cons caller waiting =>
        simp only [State.apply, State.ret, CallStack.pop?] at h
        split at h <;> cases h
    | _ => cases h

/-- The results of calls made one after another, each with the steps counted so far. -/
def callAll (machine : Machine) : List (String × List Int64) → List (Outcome × Nat)
  | [] => []
  | (name, args) :: calls =>
    let (outcome, next) := machine.callByName name args
    (outcome, next.steps) :: next.callAll calls

/-- The use of a released object is not how the call ends. -/
def Outcome.NotDangling (outcome : Outcome) : Prop :=
  ∀ cause, outcome = .failed cause → ¬cause.IsDangling

end Machine

open Machine

variable {n : Nesting} {policy : FramePolicy} {m : Lir.Module}

/-! ## Whole runs -/

/-- A run with frames on the stack is the run with all frames on the heap. -/
theorem Owned.run_onHeap (hm : n.Lowers policy m) (maxSteps left steps : Nat) {s : State}
    (h : Owned n s) :
    run m.onHeap maxSteps left s.onHeap steps = (run m maxSteps left s steps).onHeap ∧
      HeapOk (run m maxSteps left s steps).store ∧
      (run m maxSteps left s steps).outcome.NotDangling := by
  have hsettle : ∀ s : State, s.onHeap.active.settle s.onHeap.active.blocks =
      (s.active.settle s.active.blocks).onHeap :=
    fun s => s.active.onHeap_settle s.active.blocks
  induction left generalizing s steps with
  | zero =>
    unfold run
    rw [hsettle]
    cases hset : s.active.settle s.active.blocks with
    | fault cause =>
      refine ⟨by simp [Position.onHeap, Result.onHeap], h.heapOk_unwind, ?_⟩
      rintro _ ⟨⟩
      exact s.active.not_isDangling_settle hset
    | stuck =>
      refine ⟨by simp [Position.onHeap, Result.onHeap], h.heapOk_unwind, ?_⟩
      rintro _ ⟨⟩
    | next inst blocks =>
      have hname : s.onHeap.active.function.name = s.active.function.name := rfl
      refine ⟨by simp [Position.onHeap, Result.onHeap, hname], h.heapOk_unwind, ?_⟩
      rintro _ ⟨⟩ ⟨_, _, ⟨⟩⟩
  | succ left ih =>
    unfold run
    rw [hsettle]
    cases hset : s.active.settle s.active.blocks with
    | fault cause =>
      refine ⟨by simp [Position.onHeap, Result.onHeap], h.heapOk_unwind, ?_⟩
      rintro _ ⟨⟩
      exact s.active.not_isDangling_settle hset
    | stuck =>
      refine ⟨by simp [Position.onHeap, Result.onHeap], h.heapOk_unwind, ?_⟩
      rintro _ ⟨⟩
    | next inst blocks =>
      simp only [Position.onHeap, State.onHeap_take, State.onHeap_step _ _ (h.live blocks)]
      cases hstep : (s.take blocks).step m inst with
      | running s' => exact ih _ (h.step hm ⟨inst, blocks, hset, hstep⟩)
      | stopped outcome store =>
        refine ⟨rfl, ?_, ?_⟩
        · rw [State.store_of_stopped hstep]
          exact h.heapOk_unwind
        · rintro cause ⟨⟩
          have hheap := State.onHeap_step (m := m) _ (h.live blocks) inst
          rw [hstep] at hheap
          exact State.not_isDangling_step (Store.allLive_onHeap _) hheap

/-! ## Sequences of calls -/

/-- The machine whose module allocates everything on the heap, after the same calls. -/
def Machine.onHeap (machine : Machine) : Machine :=
  { machine with module := machine.module.onHeap, store := machine.store.onHeap }

theorem findFunction?_onHeap (m : Lir.Module) (name : String) :
    m.onHeap.findFunction? name = (m.findFunction? name).map Lir.Function.onHeap := by
  simp [Lir.Module.findFunction?, Lir.Module.onHeap, Array.find?_map]
  rfl

theorem function?_onHeap (m : Lir.Module) (id : FunctionId) :
    m.onHeap.function? id = (m.function? id).map Lir.Function.onHeap := by
  simp [Lir.Module.function?, Lir.Module.onHeap]

/-- A call that is refused leaves the machine as it is, on both sides. -/
theorem refused_onHeap {machine : Machine} (hs : HeapOk machine.store) {cause : Fault}
    (hc : ¬cause.IsDangling) {result : Outcome × Machine} (h : result = (.failed cause, machine)) :
    (Outcome.failed cause, machine.onHeap) = (result.1, result.2.onHeap) ∧
      result.2.module = machine.module ∧ HeapOk result.2.store ∧ result.1.NotDangling := by
  subst h
  refine ⟨rfl, rfl, hs, ?_⟩
  rintro _ ⟨⟩
  exact hc

theorem call_onHeap {machine : Machine} (hm : n.Lowers policy machine.module)
    (hs : HeapOk machine.store) (id : FunctionId) (args : List Int64) :
    machine.onHeap.call id (args.map .int) =
        ((machine.call id (args.map .int)).1, (machine.call id (args.map .int)).2.onHeap) ∧
      (machine.call id (args.map .int)).2.module = machine.module ∧
      HeapOk (machine.call id (args.map .int)).2.store ∧
      (machine.call id (args.map .int)).1.NotDangling := by
  obtain ⟨m, maxSteps, store, steps⟩ := machine
  unfold Machine.call
  simp only [Machine.onHeap, function?_onHeap]
  cases hf : m.function? id with
  | none => exact refused_onHeap hs (by rintro ⟨_, _, ⟨⟩⟩) rfl
  | some f =>
    simp only [Option.map_some, Activation.onHeap_enter]
    cases he : Activation.enter f (args.map .int) none with
    | error cause =>
      refine refused_onHeap hs ?_ rfl
      unfold Activation.enter at he
      simp only at he
      split at he <;> cases he
      rintro ⟨_, _, ⟨⟩⟩
    | ok a =>
      obtain ⟨hrun, hheap, hnot⟩ :=
        (owned_of_enter hm hs hf he).run_onHeap hm maxSteps (maxSteps - steps) steps
      have hstart : (⟨a.onHeap, .empty, store.onHeap⟩ : State) = State.onHeap ⟨a, .empty, store⟩ := rfl
      simp only [Except.map, hstart, hrun]
      exact ⟨rfl, trivial, hheap, hnot⟩

theorem callByName_onHeap {machine : Machine} (hm : n.Lowers policy machine.module)
    (hs : HeapOk machine.store) (name : String) (args : List Int64) :
    machine.onHeap.callByName name args =
        ((machine.callByName name args).1, (machine.callByName name args).2.onHeap) ∧
      (machine.callByName name args).2.module = machine.module ∧
      HeapOk (machine.callByName name args).2.store ∧
      (machine.callByName name args).1.NotDangling := by
  unfold callByName
  have hfind : machine.onHeap.module.findFunction? name =
      (machine.module.findFunction? name).map Lir.Function.onHeap := findFunction?_onHeap _ name
  rw [hfind]
  cases machine.module.findFunction? name with
  | none => exact refused_onHeap hs (by rintro ⟨_, _, ⟨⟩⟩) rfl
  | some f =>
    have hcontext : f.onHeap.hasContext = f.hasContext := rfl
    have hparams : f.onHeap.params = f.params := rfl
    have hid : f.onHeap.id = f.id := rfl
    simp only [Option.map_some, hcontext, hparams, hid]
    split
    · exact refused_onHeap hs (by rintro ⟨_, _, ⟨⟩⟩) rfl
    · split
      · exact refused_onHeap hs (by rintro ⟨_, _, ⟨⟩⟩) rfl
      · exact call_onHeap hm hs f.id args

theorem callAll_onHeap {machine : Machine} (hm : n.Lowers policy machine.module)
    (hs : HeapOk machine.store) (calls : List (String × List Int64)) :
    machine.onHeap.callAll calls = machine.callAll calls ∧
      ∀ result ∈ machine.callAll calls, result.1.NotDangling := by
  induction calls generalizing machine with
  | nil => simp [callAll]
  | cons call calls ih =>
    obtain ⟨name, args⟩ := call
    obtain ⟨heq, hmodule, hheap, hnot⟩ := callByName_onHeap hm hs name args
    have hm' : n.Lowers policy (machine.callByName name args).2.module := hmodule ▸ hm
    obtain ⟨hrest, hall⟩ := ih hm' hheap
    simp only [callAll, heq, hrest]
    refine ⟨rfl, ?_⟩
    intro result hmem
    rcases List.mem_cons.1 hmem with rfl | hmem
    · exact hnot
    · exact hall result hmem

/-- The two allocation policies cannot be told apart. Whatever calls are made, one after another, on a
machine with the module that escape analysis gives and on one with every frame on the heap, each call has
the same result and leaves the same step count, and none uses a frame that was released. The modules
themselves differ in allocation kinds only. -/
theorem callAll_eq_of_policies {p : Program} (hp : p.check = .ok ()) (hc : p.ChildrenDistinct)
    {s t : Settings} {e h : CompiledUnit}
    (he : { s with frames := .escapeAnalysis : Settings }.compile p = .ok e)
    (hh : { t with frames := .alwaysHeap : Settings }.compile p = .ok h) :
    h.lir = e.lir.onHeap ∧ ∀ (maxSteps : Nat) (calls : List (String × List Int64)),
      (boot e.lir maxSteps).callAll calls = (boot h.lir maxSteps).callAll calls ∧
        ∀ result ∈ (boot e.lir maxSteps).callAll calls, ∀ object struct,
          result.1 ≠ .failed (.dangling object struct) := by
  obtain ⟨n, hn, hlower⟩ := Nesting.exists_of_compile he
  obtain ⟨n', hn', hlower'⟩ := Nesting.exists_of_compile hh
  obtain ⟨rfl, hbuilt⟩ := Nesting.built_of_eq_ok (Program.checked_of_check hp) hn
  have heq : h.lir = e.lir.onHeap := by
    obtain ⟨n'', hn'', hmap⟩ := hbuilt.lower_alwaysHeap hc
    rw [hn''] at hn'
    cases hn'
    rw [hmap, hlower] at hlower'
    exact (Except.ok.inj hlower').symm
  refine ⟨heq, fun maxSteps calls => ?_⟩
  have hm := Nesting.lowers_of_lower hbuilt hc hlower
  have hempty : HeapOk Store.empty := by
    intro o object ho
    simp [Store.empty] at ho
  have hboot : (boot e.lir maxSteps).onHeap = boot h.lir maxSteps := by
    simp [heq, boot, Machine.onHeap, Store.empty, Store.onHeap]
  have hcalls : (boot e.lir maxSteps).onHeap.callAll calls = (boot e.lir maxSteps).callAll calls ∧
      ∀ result ∈ (boot e.lir maxSteps).callAll calls, result.1.NotDangling :=
    callAll_onHeap hm hempty calls
  rw [hboot] at hcalls
  refine ⟨hcalls.1.symm, ?_⟩
  intro result hmem object struct hfail
  exact hcalls.2 result hmem _ hfail ⟨object, struct, rfl⟩

/-- The frame of the running total is on the stack of one machine and on the heap of the other. -/
theorem callAll_eq_of_policies_tally : ∃ e h : CompiledUnit,
    ({ frames := .escapeAnalysis } : Settings).compile tally = .ok e ∧
      ({ frames := .alwaysHeap } : Settings).compile tally = .ok h ∧ h.lir = e.lir.onHeap ∧
      (boot e.lir 60).callAll [("main", [5]), ("offset", [2]), ("main", [7])] =
        (boot h.lir 60).callAll [("main", [5]), ("offset", [2]), ("main", [7])] := by
  obtain ⟨e, he⟩ := exists_of_isOk
    (show (({ frames := .escapeAnalysis } : Settings).compile tally).isOk = true by decide +kernel)
  obtain ⟨h, hh⟩ := exists_of_isOk
    (show (({ frames := .alwaysHeap } : Settings).compile tally).isOk = true by decide +kernel)
  obtain ⟨hlir, hcalls⟩ := callAll_eq_of_policies (s := {}) (t := {}) tally_check
    tally_childrenDistinct he hh
  exact ⟨e, h, he, hh, hlir, (hcalls 60 _).1⟩

end StaticChain

import StaticChain.Proofs.Activations

/-!
# What instructions do

`Activation.Does` lists what each instruction needs and what it then does. It holds exactly when
`Activation.effect` succeeds (`Activation.effect_eq_ok`), so whatever is proved about all steps is proved
by going through its cases. `State.Moves` does the same for carrying out an effect.
-/

namespace StaticChain.Machine

open Lir (ValueId LocalId FunctionId StructId AllocKind Inst Ty)

/-- What an instruction does, and what it needs for that. -/
inductive Activation.Does (a : Activation) (m : Lir.Module) (s : Store) : Inst → Effect → Prop
  | const {dest : ValueId} {x : Int64} : Does a m s (.const dest x) (.define dest (.int x))
  | null {dest : ValueId} : Does a m s (.null dest) (.define dest .null)
  | binary {dest lhs rhs : ValueId} {op : Lir.BinOp} {x y : Int64} {v : Value} :
      a.value lhs = .ok (.int x) → a.value rhs = .ok (.int y) → Machine.binary op x y = .ok v →
      Does a m s (.binary dest op lhs rhs) (.define dest v)
  | unary {dest operand : ValueId} {op : Lir.UnaryOp} {x : Int64} : a.value operand = .ok (.int x) →
      Does a m s (.unary dest op operand) (.define dest (Machine.unary op x))
  | localGet {dest : ValueId} {x : LocalId} {v : Value} : a.local x = .ok v →
      Does a m s (.localGet dest x) (.define dest v)
  | localSet {x : LocalId} {value : ValueId} {v : Value} : a.value value = .ok v →
      x.index < a.locals.size → Does a m s (.localSet x value) (.assign x v)
  | alloc {dest : ValueId} {struct : StructId} {kind : AllocKind} {layout : Lir.StructType} :
      m.struct? struct = some layout →
      Does a m s (.alloc dest struct kind) (.allocate dest struct kind layout.slots.length)
  | fieldAddr {dest base : ValueId} {struct : StructId} {slot : Nat} {o : ObjectId} {object : Object} :
      a.value base = .ok (.object o) → s.objects[o.index]? = some object → object.live = true →
      object.struct = struct →
      Does a m s (.fieldAddr dest base struct slot) (.define dest (.slot o slot))
  | load {dest addr : ValueId} {ty : Ty} {o : ObjectId} {k : Nat} {object : Object} {v : Value} :
      a.value addr = .ok (.slot o k) → s.objects[o.index]? = some object → object.live = true →
      object.slots[k]? = some (some v) → Does a m s (.load dest addr ty) (.define dest v)
  | store {addr value : ValueId} {ty : Ty} {o : ObjectId} {k : Nat} {object : Object} {v : Value} :
      a.value addr = .ok (.slot o k) → a.value value = .ok v → s.objects[o.index]? = some object →
      object.live = true → k < object.slots.size →
      Does a m s (.store addr value ty) (.write o k v)
  | call {dest : Option ValueId} {f : FunctionId} {args : List ValueId} {vs : List Value} :
      List.Forall₂ (fun r v => a.value r = .ok v) args vs →
      Does a m s (.call dest f args) (.call dest f vs)
  | makeClosure {dest context : ValueId} {f : FunctionId} {c : Option ObjectId} :
      a.value context = .ok (.ofContext c) →
      Does a m s (.makeClosure dest f context) (.define dest (.closure f c))
  | callClosure {dest : Option ValueId} {closure : ValueId} {args : List ValueId}
      {signature : Lir.Signature} {f : FunctionId} {c : Option ObjectId} {vs : List Value} :
      a.value closure = .ok (.closure f c) → List.Forall₂ (fun r v => a.value r = .ok v) args vs →
      Does a m s (.callClosure dest closure args signature)
        (.call dest f ((if (m.function? f).any Lir.Function.hasContext then [.ofContext c] else []) ++ vs))
  | branch {condition : ValueId} {thenBody elseBody : List Inst} {x : Int64} :
      a.value condition = .ok (.int x) →
      Does a m s (.branch condition thenBody elseBody)
        (.enter ⟨if x = 0 then elseBody else thenBody, .straight⟩)
  | loop {header body : List Inst} {condition : ValueId} :
      Does a m s (.loop header condition body) (.enter ⟨header, .header ⟨header, condition, body⟩⟩)
  | retNone : Does a m s (.ret none) (.ret none)
  | ret {value : ValueId} {v : Value} : a.value value = .ok v →
      Does a m s (.ret (some value)) (.ret (some v))

namespace Activation

variable {a : Activation} {m : Lir.Module} {s : Store}

theorem int_eq_ok {id : ValueId} {x : Int64} : a.int id = .ok x ↔ a.value id = .ok (.int x) := by
  unfold int
  rw [bind_eq_ok]
  constructor
  · rintro ⟨v, hv, hx⟩
    cases v <;> cases hx
    exact hv
  · intro h
    exact ⟨_, h, rfl⟩

theorem base_eq_ok {id : ValueId} {o : ObjectId} : a.base id = .ok o ↔ a.value id = .ok (.object o) := by
  unfold base
  rw [bind_eq_ok]
  constructor
  · rintro ⟨v, hv, hx⟩
    cases v with
    | object o' =>
      cases hx
      exact hv
    | _ => exact absurd hx throw_ne_ok
  · intro h
    exact ⟨_, h, rfl⟩

end Activation

theorem Store.object_eq_ok {s : Store} {o : ObjectId} {object : Object} :
    s.object o = .ok object ↔ s.objects[o.index]? = some object ∧ object.live = true := by
  unfold Store.object
  cases ho : s.objects[o.index]? with
  | none => simp
  | some object' =>
    simp only [Option.some.injEq]
    constructor
    · intro h
      split at h
      · cases h
        exact ⟨rfl, ‹_›⟩
      · cases h
    · rintro ⟨rfl, hlive⟩
      simp [hlive]

theorem Store.read_eq_ok {s : Store} {o : ObjectId} {k : Nat} {v : Value} :
    s.read o k = .ok v ↔ ∃ object, s.objects[o.index]? = some object ∧ object.live = true ∧
      object.slots[k]? = some (some v) := by
  unfold Store.read
  simp only [bind_eq_ok, Store.object_eq_ok]
  constructor
  · rintro ⟨object, ⟨ho, hlive⟩, h⟩
    split at h
    · rename_i hk
      cases h
      exact ⟨object, ho, hlive, hk⟩
    · exact absurd h throw_ne_ok
    · exact absurd h throw_ne_ok
  · rintro ⟨object, ho, hlive, hk⟩
    exact ⟨object, ⟨ho, hlive⟩, by simp [hk, pure, Except.pure]⟩

theorem Store.checkSlot_eq_ok {s : Store} {o : ObjectId} {k : Nat} :
    s.checkSlot o k = .ok () ↔ ∃ object, s.objects[o.index]? = some object ∧ object.live = true ∧
      k < object.slots.size := by
  unfold Store.checkSlot
  simp only [bind_eq_ok, Store.object_eq_ok]
  constructor
  · rintro ⟨object, ⟨ho, hlive⟩, h⟩
    split at h
    · exact ⟨object, ho, hlive, ‹_›⟩
    · exact absurd h throw_ne_ok
  · rintro ⟨object, ho, hlive, hk⟩
    exact ⟨object, ⟨ho, hlive⟩, by simp [hk, pure, Except.pure]⟩

theorem Value.slot?_eq_ok {v : Value} {o : ObjectId} {k : Nat} :
    v.slot? = .ok (o, k) ↔ v = .slot o k := by
  cases v <;> simp [Value.slot?]

theorem Value.context?_eq_ok {v : Value} {c : Option ObjectId} :
    v.context? = .ok c ↔ v = .ofContext c := by
  cases v <;> cases c <;> simp [Value.context?, Value.ofContext]

namespace Activation

variable {a : Activation} {m : Lir.Module} {s : Store}

theorem Does.of_effect {inst : Inst} {e : Effect} (h : a.effect m s inst = .ok e) :
    a.Does m s inst e := by
  cases inst with
  | const dest x =>
    cases h
    exact .const
  | null dest =>
    cases h
    exact .null
  | binary dest op lhs rhs =>
    obtain ⟨x, hx, h⟩ := bind_eq_ok.1 h
    obtain ⟨y, hy, h⟩ := bind_eq_ok.1 h
    obtain ⟨v, hv, h⟩ := bind_eq_ok.1 h
    cases h
    exact .binary (int_eq_ok.1 hx) (int_eq_ok.1 hy) hv
  | unary dest op operand =>
    obtain ⟨x, hx, h⟩ := bind_eq_ok.1 h
    cases h
    exact .unary (int_eq_ok.1 hx)
  | localGet dest x =>
    obtain ⟨v, hv, h⟩ := bind_eq_ok.1 h
    cases h
    exact .localGet hv
  | localSet x value =>
    obtain ⟨v, hv, h⟩ := bind_eq_ok.1 h
    split at h
    · cases h
      exact .localSet hv ‹_›
    · exact absurd h throw_ne_ok
  | alloc dest struct kind =>
    simp only [effect] at h
    split at h
    · cases h
      exact .alloc ‹_›
    · exact absurd h throw_ne_ok
  | fieldAddr dest base struct slot =>
    obtain ⟨o, ho, h⟩ := bind_eq_ok.1 h
    obtain ⟨object, hobj, h⟩ := bind_eq_ok.1 h
    obtain ⟨hobj, hlive⟩ := Store.object_eq_ok.1 hobj
    simp only at h
    split at h
    · cases h
      exact .fieldAddr (base_eq_ok.1 ho) hobj hlive ‹_›
    · exact absurd h throw_ne_ok
  | load dest addr ty =>
    obtain ⟨v, hv, h⟩ := bind_eq_ok.1 h
    obtain ⟨⟨o, k⟩, hk, h⟩ := bind_eq_ok.1 h
    obtain ⟨w, hw, h⟩ := bind_eq_ok.1 h
    cases h
    obtain ⟨object, ho, hlive, hslot⟩ := Store.read_eq_ok.1 hw
    exact .load (Value.slot?_eq_ok.1 hk ▸ hv) ho hlive hslot
  | store addr value ty =>
    obtain ⟨v, hv, h⟩ := bind_eq_ok.1 h
    obtain ⟨⟨o, k⟩, hk, h⟩ := bind_eq_ok.1 h
    obtain ⟨w, hw, h⟩ := bind_eq_ok.1 h
    obtain ⟨_, hcheck, h⟩ := bind_eq_ok.1 h
    cases h
    obtain ⟨object, ho, hlive, hlt⟩ := Store.checkSlot_eq_ok.1 hcheck
    exact .store (Value.slot?_eq_ok.1 hk ▸ hv) hw ho hlive hlt
  | call dest f args =>
    obtain ⟨vs, hvs, h⟩ := bind_eq_ok.1 h
    cases h
    exact .call (mapM_eq_ok.1 hvs)
  | makeClosure dest f context =>
    obtain ⟨v, hv, h⟩ := bind_eq_ok.1 h
    obtain ⟨c, hc, h⟩ := bind_eq_ok.1 h
    cases h
    exact .makeClosure (Value.context?_eq_ok.1 hc ▸ hv)
  | callClosure dest closure args signature =>
    obtain ⟨v, hv, h⟩ := bind_eq_ok.1 h
    cases v with
    | closure f c =>
      obtain ⟨vs, hvs, h⟩ := bind_eq_ok.1 h
      cases h
      exact .callClosure hv (mapM_eq_ok.1 hvs)
    | _ => exact absurd h throw_ne_ok
  | branch condition thenBody elseBody =>
    obtain ⟨x, hx, h⟩ := bind_eq_ok.1 h
    cases h
    exact .branch (int_eq_ok.1 hx)
  | loop header condition body =>
    cases h
    exact .loop
  | ret value =>
    cases value with
    | none =>
      cases h
      exact .retNone
    | some value =>
      obtain ⟨v, hv, h⟩ := bind_eq_ok.1 h
      cases h
      exact .ret hv
  | unreachable => exact absurd h throw_ne_ok

theorem Does.effect_eq {inst : Inst} {e : Effect} (h : a.Does m s inst e) :
    a.effect m s inst = .ok e := by
  cases h with
  | const => rfl
  | null => rfl
  | binary hx hy hv =>
    exact bind_eq_ok.2 ⟨_, int_eq_ok.2 hx, bind_eq_ok.2 ⟨_, int_eq_ok.2 hy, bind_eq_ok.2 ⟨_, hv, rfl⟩⟩⟩
  | unary hx => exact bind_eq_ok.2 ⟨_, int_eq_ok.2 hx, rfl⟩
  | localGet hv => exact bind_eq_ok.2 ⟨_, hv, rfl⟩
  | localSet hv hlt => exact bind_eq_ok.2 ⟨_, hv, by simp [hlt, pure, Except.pure]⟩
  | alloc hl => simp [effect, hl, pure, Except.pure]
  | fieldAddr hv ho hlive hstruct =>
    exact bind_eq_ok.2 ⟨_, base_eq_ok.2 hv, bind_eq_ok.2 ⟨_, Store.object_eq_ok.2 ⟨ho, hlive⟩,
      by simp [hstruct, pure, Except.pure]⟩⟩
  | load hv ho hlive hk =>
    exact bind_eq_ok.2 ⟨_, hv, bind_eq_ok.2 ⟨_, Value.slot?_eq_ok.2 rfl,
      bind_eq_ok.2 ⟨_, Store.read_eq_ok.2 ⟨_, ho, hlive, hk⟩, rfl⟩⟩⟩
  | store hv hw ho hlive hk =>
    exact bind_eq_ok.2 ⟨_, hv, bind_eq_ok.2 ⟨_, Value.slot?_eq_ok.2 rfl,
      bind_eq_ok.2 ⟨_, hw, bind_eq_ok.2 ⟨_, Store.checkSlot_eq_ok.2 ⟨_, ho, hlive, hk⟩, rfl⟩⟩⟩⟩
  | call hvs => exact bind_eq_ok.2 ⟨_, mapM_eq_ok.2 hvs, rfl⟩
  | makeClosure hv => exact bind_eq_ok.2 ⟨_, hv, bind_eq_ok.2 ⟨_, Value.context?_eq_ok.2 rfl, rfl⟩⟩
  | callClosure hv hvs => exact bind_eq_ok.2 ⟨_, hv, bind_eq_ok.2 ⟨_, mapM_eq_ok.2 hvs, rfl⟩⟩
  | branch hx => exact bind_eq_ok.2 ⟨_, int_eq_ok.2 hx, rfl⟩
  | loop => rfl
  | retNone => rfl
  | ret hv => exact bind_eq_ok.2 ⟨_, hv, rfl⟩

/-- An instruction that does not fault does what it needs to. -/
theorem effect_eq_ok {inst : Inst} {e : Effect} : a.effect m s inst = .ok e ↔ a.Does m s inst e :=
  ⟨Does.of_effect, Does.effect_eq⟩

end Activation

theorem binary_eq_ok {op : Lir.BinOp} {x y : Int64} {v : Value} (h : binary op x y = .ok v) :
    ∃ z, v = .int z := by
  cases op with
  | div =>
    simp only [binary] at h
    split at h <;> cases h
    exact ⟨_, rfl⟩
  | rem =>
    simp only [binary] at h
    split at h <;> cases h
    exact ⟨_, rfl⟩
  | _ =>
    cases h
    exact ⟨_, rfl⟩

theorem unary_eq (op : Lir.UnaryOp) (x : Int64) : ∃ z, unary op x = .int z := by
  cases op <;> exact ⟨_, rfl⟩

/-! ## The end of a call -/

/-- The objects that some activations release. -/
def reachOf (activations : List Activation) : List ObjectId := activations.flatMap Activation.owned

@[simp] theorem reachOf_cons (a : Activation) (rest : List Activation) :
    reachOf (a :: rest) = a.owned ++ reachOf rest := by
  simp [reachOf]

namespace State

theorem unwind_eq (s : State) :
    s.unwind = s.store.releaseAll (reachOf (s.active :: s.callers.waiting)) := by
  change (s.active :: s.callers.waiting).foldl (fun store a => store.releaseAll a.owned) s.store = _
  generalize s.active :: s.callers.waiting = acts
  generalize s.store = store
  induction acts generalizing store with
  | nil => rfl
  | cons a acts ih =>
    rw [List.foldl_cons, ih, reachOf_cons]
    simp [Store.releaseAll]

/-- However a step ends a call, the frames of all activations are released. -/
theorem store_of_stopped {m : Lir.Module} {s : State} {inst : Inst} {outcome : Outcome} {store : Store}
    (h : s.step m inst = .stopped outcome store) : store = s.unwind := by
  obtain ⟨a, ⟨waiting, depth, hdepth⟩, st⟩ := s
  unfold State.step at h
  split at h
  · cases h
    rfl
  · rename_i e _
    cases e with
    | call dest f args =>
      simp only [State.apply, State.call] at h
      split at h
      · cases h
        rfl
      · split at h
        · cases h
          rfl
        · split at h
          · cases h
            rfl
          · cases h
    | ret v =>
      cases waiting with
      | nil =>
        cases h
        rfl
      | cons caller waiting =>
        simp only [State.apply, State.ret, CallStack.pop?] at h
        split at h <;> cases h
    | _ => cases h

end State

/-! ## Carrying out an effect -/

/-- The state after an effect of an instruction, where the call goes on. -/
inductive State.Moves (m : Lir.Module) : State → Effect → State → Prop
  | define {a : Activation} {c : CallStack} {s : Store} {dest : ValueId} {v : Value} :
      Moves m ⟨a, c, s⟩ (.define dest v) ⟨a.define dest v, c, s⟩
  | assign {a : Activation} {c : CallStack} {s : Store} {x : LocalId} {v : Value} :
      Moves m ⟨a, c, s⟩ (.assign x v) ⟨a.assign x v, c, s⟩
  | allocateHeap {a : Activation} {c : CallStack} {s : Store} {dest : ValueId} {struct : StructId}
      {slots : Nat} : Moves m ⟨a, c, s⟩ (.allocate dest struct .heap slots)
        ⟨a.define dest (.object s.next), c, s.allocate struct .heap slots⟩
  | allocateStack {a : Activation} {c : CallStack} {s : Store} {dest : ValueId} {struct : StructId}
      {slots : Nat} : Moves m ⟨a, c, s⟩ (.allocate dest struct .stack slots)
        ⟨{ a.define dest (.object s.next) with owned := s.next :: a.owned }, c,
          s.allocate struct .stack slots⟩
  | write {a : Activation} {c : CallStack} {s : Store} {o : ObjectId} {k : Nat} {v : Value} :
      Moves m ⟨a, c, s⟩ (.write o k v) ⟨a, c, s.set o k v⟩
  | enter {a : Activation} {c : CallStack} {s : Store} {block : Block} :
      Moves m ⟨a, c, s⟩ (.enter block) ⟨a.openBlock block, c, s⟩
  | call {a callee : Activation} {c : CallStack} {s : Store} {dest : Option ValueId}
      {target : FunctionId} {f : Lir.Function} {args : List Value} : c.depth + 1 < maxDepth →
      m.function? target = some f → Activation.enter f args dest = .ok callee →
      Moves m ⟨a, c, s⟩ (.call dest target args) ⟨callee, c.push a, s⟩
  | ret {a caller : Activation} {c : CallStack} {s : Store} {v : Option Value} :
      (a.dest = none ∨ v = none) →
      Moves m ⟨a, c.push caller, s⟩ (.ret v) ⟨caller, c, s.releaseAll a.owned⟩
  | retValue {a caller : Activation} {c : CallStack} {s : Store} {dest : ValueId} {v : Value} :
      a.dest = some dest →
      Moves m ⟨a, c.push caller, s⟩ (.ret (some v)) ⟨caller.define dest v, c, s.releaseAll a.owned⟩

theorem CallStack.pop?_push (c : CallStack) (a : Activation) : (c.push a).pop? = some (a, c) := by
  obtain ⟨waiting, depth, hdepth⟩ := c
  simp [push, pop?]

theorem CallStack.pop?_eq_some {c c' : CallStack} {a : Activation} (h : c.pop? = some (a, c')) :
    c = c'.push a := by
  obtain ⟨waiting, depth, hdepth⟩ := c
  cases waiting with
  | nil => cases h
  | cons b waiting =>
    cases h
    simp only [List.length_cons] at hdepth
    simp [push, hdepth]

namespace State

variable {m : Lir.Module}

theorem moves_of_apply {s s' : State} {e : Effect} (h : s.apply m e = .running s') :
    Moves m s e s' := by
  obtain ⟨a, c, store⟩ := s
  cases e with
  | define dest v =>
    cases h
    exact .define
  | assign x v =>
    cases h
    exact .assign
  | allocate dest struct kind slots =>
    cases kind with
    | heap =>
      cases h
      exact .allocateHeap
    | stack =>
      cases h
      exact .allocateStack
  | write o k v =>
    cases h
    exact .write
  | enter block =>
    cases h
    exact .enter
  | call dest target args =>
    simp only [apply, call] at h
    split at h
    · cases h
    · split at h
      · cases h
      · split at h
        · cases h
        · cases h
          exact .call (Nat.lt_of_not_le ‹_›) ‹_› ‹_›
  | ret v =>
    simp only [apply, ret] at h
    split at h
    · cases h
    · rename_i hpop
      have hc := CallStack.pop?_eq_some hpop
      subst hc
      split at h
      · cases h
        exact .retValue ‹_›
      · rename_i hnot
        cases h
        refine .ret ?_
        rcases hd : a.dest with _ | dest
        · exact .inl rfl
        · exact .inr (Option.eq_none_iff_forall_ne_some.2 fun w hw => hnot dest w hd hw)

theorem Moves.apply_eq {s s' : State} {e : Effect} (h : Moves m s e s') :
    s.apply m e = .running s' := by
  cases h with
  | call hdepth hf he =>
    simp [apply, State.call, Nat.not_le.2 hdepth, hf, he]
  | ret hnone =>
    simp only [apply, State.ret, CallStack.pop?_push]
    rcases hnone with hd | rfl
    · rw [hd]
    · split <;> simp_all
  | retValue hd => simp only [apply, State.ret, CallStack.pop?_push, hd]
  | _ => rfl

theorem Moves.define_eq {a : Activation} {c : CallStack} {s : Store} {dest : ValueId} {v : Value}
    {s' : State} (h : Moves m ⟨a, c, s⟩ (.define dest v) s') : s' = ⟨a.define dest v, c, s⟩ := by
  cases h
  rfl

/-- A step of a running call: the next instruction is found, taken and carried out. -/
def Step (m : Lir.Module) (s s' : State) : Prop :=
  ∃ inst blocks, s.active.settle s.active.blocks = .next inst blocks ∧
    (s.take blocks).step m inst = .running s'

/-- Some steps one after the other. -/
inductive Steps (m : Lir.Module) : Nat → State → State → Prop
  | refl (s : State) : Steps m 0 s s
  | head {k : Nat} {s s' s'' : State} : s.Step m s' → Steps m k s' s'' → Steps m (k + 1) s s''

theorem step_eq_running {s s' : State} {inst : Inst} (h : s.step m inst = .running s') :
    ∃ e, s.active.Does m s.store inst e ∧ State.Moves m s e s' := by
  unfold State.step at h
  split at h
  · cases h
  · rename_i e he
    exact ⟨e, .of_effect he, moves_of_apply h⟩

/-- A call ends with a return of the outermost activation. -/
theorem step_eq_returned {s : State} {inst : Inst} {v : Option Value} {store : Store}
    (h : s.step m inst = .stopped (.returned v) store) :
    s.active.Does m s.store inst (.ret v) ∧ s.callers.waiting = [] := by
  unfold State.step at h
  split at h
  · cases h
  rename_i e he
  obtain ⟨a, ⟨waiting, depth, hdepth⟩, st⟩ := s
  cases e with
  | call dest f args =>
    simp only [State.apply, State.call] at h
    split at h
    · cases h
    · split at h
      · cases h
      · split at h <;> cases h
  | ret v =>
    cases waiting with
    | nil =>
      cases h
      exact ⟨.of_effect he, rfl⟩
    | cons caller waiting =>
      simp only [State.apply, State.ret, CallStack.pop?] at h
      split at h <;> cases h
  | _ => cases h

/-- The step at an instruction of an open block. -/
theorem moves_of_step {s s' : State} (h : s.Step m s') {inst : Inst} {rest : List Inst}
    {kind : BlockKind} {outer : List Block} (hb : s.active.blocks = ⟨inst :: rest, kind⟩ :: outer) :
    ∃ e, { s.active with blocks := ⟨rest, kind⟩ :: outer }.Does m s.store inst e ∧
      Moves m ⟨{ s.active with blocks := ⟨rest, kind⟩ :: outer }, s.callers, s.store⟩ e s' := by
  obtain ⟨inst', blocks, hsettle, hstep⟩ := h
  rw [hb] at hsettle
  cases hsettle
  exact step_eq_running hstep

end State

end StaticChain.Machine

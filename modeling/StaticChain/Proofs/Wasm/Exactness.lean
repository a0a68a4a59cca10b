import StaticChain.Proofs.Wasm.Allocating
import StaticChain.Proofs.Wasm.Straight

/-!
# Code that does not wrap around

Operations on 32 bits wrap around, and fit where their result is that of the integers (`IntBin.Fits`).
`State.Goes host m P T s` says that from `s` code comes to a state with the property `P`, or to a trap with the
property `T` of what it leaves behind, and that on the way every operation on 32 bits fits. There is a rule for each
instruction that the allocator is made of; those for arithmetic are about natural numbers.
-/

namespace StaticChain.Wasm

/-- The result of integers, for operations that could wrap around. -/
def IntBin.onInts? : IntBin → (x y : Nat) → Option Int
  | .add, x, y => some (x + y)
  | .sub, x, y => some (x - y)
  | .mul, x, y => some (x * y)
  | .shl, x, y => some (x <<< y : Nat)
  | .shrU, x, y => some (x >>> y : Nat)
  | _, _, _ => none

/-- An operation does not wrap around. -/
def IntBin.Fits (op : IntBin) (x y : BitVec 32) : Prop :=
  ∀ z ∈ op.onInts? x.toNat y.toNat, ∃ bits, op.eval x y = .ok bits ∧ (bits.toNat : Int) = z

namespace State

/-- If the next instruction is an operation on 32 bits, it does not wrap around. -/
def Fits (s : State) : Prop :=
  match s.frame.code, s.frame.stack with
  | .plain (.bin .w32 op) :: _, .i32 y :: .i32 x :: _ => op.Fits x y
  | _, _ => True

/-- From the state, code comes to one with the property, or traps and leaves an instance with the other property,
and does not wrap around. -/
inductive Goes (host : Host) (m : Module) (P : State → Prop) (T : Instance → Prop) : State → Prop
  | here {s : State} : P s → Goes host m P T s
  | trap {s : State} : s.Fits → s.step host m = .trapped .unreachable s → T s.inst → Goes host m P T s
  | step {s s' : State} : s.Fits → s.step host m = .running s' → Goes host m P T s' → Goes host m P T s

namespace Goes

variable {host : Host} {m : Module} {P : State → Prop} {T : Instance → Prop}

/-- The run that code goes along. -/
theorem exists_run {s : State} (h : Goes host m P T s) : ∃ n t, s.run host m n = .running t ∧
    (∀ k < n, ∃ u, s.run host m k = .running u ∧ u.Fits) ∧
    (P t ∨ t.Fits ∧ t.step host m = .trapped .unreachable t ∧ T t.inst) := by
  induction h with
  | @here s hP => exact ⟨0, s, rfl, fun k hk => absurd hk (Nat.not_lt_zero k), .inl hP⟩
  | @trap s hfits htrap hT => exact ⟨0, s, rfl, fun k hk => absurd hk (Nat.not_lt_zero k), .inr ⟨hfits, htrap, hT⟩⟩
  | @step s s' hfits hstep _ ih =>
    obtain ⟨n, t, hrun, hall, hend⟩ := ih
    have hsucc : ∀ k, s.run host m (k + 1) = s'.run host m k := fun k => by simp only [run, hstep]
    refine ⟨n + 1, t, (hsucc n).trans hrun, fun k hk => ?_, hend⟩
    cases k with
    | zero => exact ⟨s, rfl, hfits⟩
    | succ k =>
      obtain ⟨u, hu, hufits⟩ := hall k (Nat.lt_of_succ_lt_succ hk)
      exact ⟨u, (hsucc k).trans hu, hufits⟩

variable {locals stack : List Val} {code : List Instr} {labels : List Label} {arity : Nat}
  {callers : List Frame} {inst : Instance}

/-! ## Instructions without arithmetic -/

/-- An instruction without control. -/
theorem exec {op : Op} {locals' stack' : List Val} {inst' : Instance}
    (hfits : (⟨⟨locals, stack, .plain op :: code, labels, arity⟩, callers, inst⟩ : State).Fits)
    (h : Data.exec ⟨locals, stack, inst⟩ host op = .done ⟨locals', stack', inst'⟩)
    (k : Goes host m P T ⟨⟨locals', stack', code, labels, arity⟩, callers, inst'⟩) :
    Goes host m P T ⟨⟨locals, stack, .plain op :: code, labels, arity⟩, callers, inst⟩ := by
  let s : State := ⟨⟨locals, stack, code, labels, arity⟩, callers, inst⟩
  have hstep : (s.withData ⟨locals, stack, inst⟩ (.plain op :: code)).step host m = _ :=
    State.step_plain (by simp [h])
  rw [h] at hstep
  exact .step hfits hstep k

theorem const32 {value : Int32}
    (k : Goes host m P T ⟨⟨locals, .i32 value.toBitVec :: stack, code, labels, arity⟩, callers, inst⟩) :
    Goes host m P T ⟨⟨locals, stack, .plain (.const32 value) :: code, labels, arity⟩, callers, inst⟩ :=
  exec trivial rfl k

theorem localGet {i : Nat} {v : Val} (h : locals[i]? = some v)
    (k : Goes host m P T ⟨⟨locals, v :: stack, code, labels, arity⟩, callers, inst⟩) :
    Goes host m P T ⟨⟨locals, stack, .plain (.localGet i) :: code, labels, arity⟩, callers, inst⟩ :=
  exec trivial (by simp only [Data.exec_localGet, h, Data.pushSome, Data.push]) k

theorem localSet {i : Nat} {v : Val} (h : i < locals.length)
    (k : Goes host m P T ⟨⟨locals.set i v, stack, code, labels, arity⟩, callers, inst⟩) :
    Goes host m P T ⟨⟨locals, v :: stack, .plain (.localSet i) :: code, labels, arity⟩, callers, inst⟩ :=
  exec trivial (if_pos h) k

theorem globalGet {i : Nat} {v : Val} (h : inst.globals[i]? = some v)
    (k : Goes host m P T ⟨⟨locals, v :: stack, code, labels, arity⟩, callers, inst⟩) :
    Goes host m P T ⟨⟨locals, stack, .plain (.globalGet i) :: code, labels, arity⟩, callers, inst⟩ :=
  exec trivial (by simp only [Data.exec_globalGet, h, Data.pushSome, Data.push]) k

theorem globalSet {i : Nat} {v : Val} (h : i < inst.globals.length)
    (k : Goes host m P T
      ⟨⟨locals, stack, code, labels, arity⟩, callers, { inst with globals := inst.globals.set i v }⟩) :
    Goes host m P T ⟨⟨locals, v :: stack, .plain (.globalSet i) :: code, labels, arity⟩, callers, inst⟩ :=
  exec trivial (if_pos h) k

theorem memoryGrow {delta : BitVec 32}
    (k : Goes host m P T ⟨⟨locals, (inst.grow host delta).1 :: stack, code, labels, arity⟩, callers,
      (inst.grow host delta).2⟩) :
    Goes host m P T ⟨⟨locals, .i32 delta :: stack, .plain (.memoryGrow 0) :: code, labels, arity⟩, callers, inst⟩ :=
  exec trivial rfl k

theorem rel32 {op : IntRel} {x y : BitVec 32} {b : Bool} (h : op.eval x y = b)
    (k : Goes host m P T ⟨⟨locals, truth b :: stack, code, labels, arity⟩, callers, inst⟩) :
    Goes host m P T ⟨⟨locals, .i32 y :: .i32 x :: stack, .plain (.rel .w32 op) :: code, labels, arity⟩, callers,
      inst⟩ := by
  subst h
  exact exec trivial rfl k

/-! ## Arithmetic -/

/-- An operation on 32 bits. -/
theorem bin32 {op : IntBin} {x y z : BitVec 32} (h : op.eval x y = .ok z)
    (hfits : ∀ n ∈ op.onInts? x.toNat y.toNat, (z.toNat : Int) = n)
    (k : Goes host m P T ⟨⟨locals, .i32 z :: stack, code, labels, arity⟩, callers, inst⟩) :
    Goes host m P T ⟨⟨locals, .i32 y :: .i32 x :: stack, .plain (.bin .w32 op) :: code, labels, arity⟩, callers,
      inst⟩ := by
  refine exec (fun n hn => ⟨z, h, hfits n hn⟩) ?_ k
  simp only [Data.exec_bin, Data.bin, h]

theorem add {x y : Nat} (h : x + y < UInt32.size)
    (k : Goes host m P T ⟨⟨locals, .i32 (BitVec.ofNat 32 (x + y)) :: stack, code, labels, arity⟩, callers, inst⟩) :
    Goes host m P T ⟨⟨locals, .i32 (BitVec.ofNat 32 y) :: .i32 (BitVec.ofNat 32 x) :: stack,
      .plain (.bin .w32 .add) :: code, labels, arity⟩, callers, inst⟩ := by
  refine bin32 (congrArg Except.ok (BitVec.ofNat_add ..).symm) ?_ k
  rw [toNat_ofNat32 h, toNat_ofNat32 (by omega), toNat_ofNat32 (by omega)]
  rintro n ⟨⟩
  omega

theorem sub {x y : Nat} (h : y ≤ x) (hx : x < UInt32.size)
    (k : Goes host m P T ⟨⟨locals, .i32 (BitVec.ofNat 32 (x - y)) :: stack, code, labels, arity⟩, callers, inst⟩) :
    Goes host m P T ⟨⟨locals, .i32 (BitVec.ofNat 32 y) :: .i32 (BitVec.ofNat 32 x) :: stack,
      .plain (.bin .w32 .sub) :: code, labels, arity⟩, callers, inst⟩ := by
  refine bin32 (congrArg Except.ok (BitVec.ofNat_sub_ofNat_of_le x y (by simp only [UInt32.size] at hx; omega) h)) ?_ k
  rw [toNat_ofNat32 (n := x - y) (by omega), toNat_ofNat32 hx, toNat_ofNat32 (by omega)]
  rintro n ⟨⟩
  omega

/-- Pages become bytes. -/
theorem shl {x : Nat} (h : x * 65536 < UInt32.size)
    (k : Goes host m P T
      ⟨⟨locals, .i32 (BitVec.ofNat 32 (x * 65536)) :: stack, code, labels, arity⟩, callers, inst⟩) :
    Goes host m P T ⟨⟨locals, .i32 Memory.pageShift.toBitVec :: .i32 (BitVec.ofNat 32 x) :: stack,
      .plain (.bin .w32 .shl) :: code, labels, arity⟩, callers, inst⟩ := by
  refine bin32 (congrArg Except.ok (shiftLeft_pages x)) ?_ k
  rw [toNat_ofNat32 h, toNat_ofNat32 (by omega), show Memory.pageShift.toBitVec.toNat = 16 from rfl]
  rintro n ⟨⟩
  omega

/-- Bytes become pages. -/
theorem shrU {x : Nat} (h : x < UInt32.size)
    (k : Goes host m P T
      ⟨⟨locals, .i32 (BitVec.ofNat 32 (x / 65536)) :: stack, code, labels, arity⟩, callers, inst⟩) :
    Goes host m P T ⟨⟨locals, .i32 Memory.pageShift.toBitVec :: .i32 (BitVec.ofNat 32 x) :: stack,
      .plain (.bin .w32 .shrU) :: code, labels, arity⟩, callers, inst⟩ := by
  have heval : IntBin.eval .shrU (BitVec.ofNat 32 x) Memory.pageShift.toBitVec = .ok (BitVec.ofNat 32 (x / 65536)) := by
    refine congrArg Except.ok (BitVec.eq_of_toNat_eq ?_)
    rw [BitVec.toNat_ushiftRight, toNat_ofNat32 h, toNat_ofNat32 (by omega), Nat.shiftRight_eq_div_pow]
    rfl
  refine bin32 heval ?_ k
  rw [toNat_ofNat32 h, toNat_ofNat32 (by omega), show Memory.pageShift.toBitVec.toNat = 16 from rfl]
  rintro n ⟨⟩
  omega

/-- A size is rounded up. -/
theorem roundUp {size : Nat} (h : size + 7 < UInt32.size)
    (k : Goes host m P T
      ⟨⟨locals, .i32 (BitVec.ofNat 32 (slotted size)) :: stack, code, labels, arity⟩, callers, inst⟩) :
    Goes host m P T ⟨⟨locals, .i32 (BitVec.ofNat 32 size) :: stack, .plain (.const32 7) :: .plain (.bin .w32 .add) ::
      .plain (.const32 (-8)) :: .plain (.bin .w32 .and) :: code, labels, arity⟩, callers, inst⟩ := by
  refine .const32 (.add (y := 7) h (.const32 (bin32 (z := BitVec.ofNat 32 (slotted size)) (congrArg Except.ok ?_)
    (fun n hn => nomatch hn) k)))
  rw [BitVec.ofNat_add]
  exact add_and_slot_mask h

/-- The size of the memory is computed. -/
theorem memoryBytes (h : inst.memory.size < UInt32.size)
    (k : Goes host m P T ⟨⟨locals, .i32 (BitVec.ofNat 32 inst.memory.size) :: stack, code, labels, arity⟩, callers,
      inst⟩) :
    Goes host m P T ⟨⟨locals, stack, Memory.memoryBytes ++ code, labels, arity⟩, callers, inst⟩ :=
  exec trivial rfl (.const32 (.shl h k))

/-! ## Control -/

/-- One of two blocks is opened. -/
theorem cond {thenBody elseBody : List Instr} {b : Bool}
    (k : Goes host m P T ⟨⟨locals, [], if b then thenBody else elseBody, ⟨0, [], code, stack⟩ :: labels, arity⟩,
      callers, inst⟩) :
    Goes host m P T ⟨⟨locals, truth b :: stack, .cond .empty thenBody elseBody :: code, labels, arity⟩, callers,
      inst⟩ := by
  refine .step trivial ?_ k
  cases b <;> rfl

/-- A block ends. -/
theorem close {label : Label}
    (k : Goes host m P T ⟨⟨locals, stack ++ label.below, label.after, labels, arity⟩, callers, inst⟩) :
    Goes host m P T ⟨⟨locals, stack, [], label :: labels, arity⟩, callers, inst⟩ :=
  .step trivial rfl k

theorem unreachable (h : T inst) :
    Goes host m P T ⟨⟨locals, stack, .plain .unreachable :: code, labels, arity⟩, callers, inst⟩ :=
  .trap trivial rfl h

end Goes

end State

end StaticChain.Wasm

import StaticChain.Proofs.Wasm.Execution

/-!
# Where code comes to

`State.Comes host m P s` says that from `s` code comes to a state with the property `P`, unless it
traps on the way because memory is used up. There is one rule for each instruction; read upwards, they
execute code symbolically. `Comes.exists_run` says what that means for runs.

The second half is about memory: what is read after something was written.
-/

namespace StaticChain.Wasm

namespace State

/-- From the state, code comes to one with the property, or traps where memory is used up. -/
inductive Comes (host : Host) (m : Module) (P : State → Prop) : State → Prop
  | here {s : State} : P s → Comes host m P s
  | exhausted {s : State} : s.step host m = .trapped .unreachable s → s.inst.Exhausted →
      Comes host m P s
  | step {s s' : State} : s.step host m = .running s' → Comes host m P s' → Comes host m P s

namespace Comes

variable {host : Host} {m : Module} {P Q : State → Prop}

theorem bind {s : State} (h : Comes host m P s) (hPQ : ∀ s, P s → Comes host m Q s) :
    Comes host m Q s := by
  induction h with
  | here hP => exact hPQ _ hP
  | exhausted htrap hinst => exact .exhausted htrap hinst
  | step hstep _ ih => exact .step hstep ih

/-- Where code comes to a return, runs that are long enough return, or trap because memory is used up. -/
theorem exists_run {s : State} {results : List Val}
    (h : Comes host m (fun s => ∃ inst, s.step host m = .returned results inst) s) :
    ∃ steps, (∃ inst, ∀ fuel, steps ≤ fuel → s.run host m fuel = .returned results inst) ∨
      ∃ t, t.inst.Exhausted ∧ ∀ fuel, steps ≤ fuel → s.run host m fuel = .trapped .unreachable t := by
  have hsucc : ∀ {fuel steps : Nat}, steps + 1 ≤ fuel → ∃ n, fuel = n + 1 ∧ steps ≤ n :=
    fun {fuel steps} hle => ⟨fuel - 1, by omega, by omega⟩
  induction h with
  | here hreturned =>
    obtain ⟨inst, hstep⟩ := hreturned
    refine ⟨1, .inl ⟨inst, fun fuel hle => ?_⟩⟩
    obtain ⟨fuel, rfl, -⟩ := hsucc hle
    simp only [run, hstep]
  | @exhausted s htrap hinst =>
    refine ⟨1, .inr ⟨s, hinst, fun fuel hle => ?_⟩⟩
    obtain ⟨fuel, rfl, -⟩ := hsucc hle
    simp only [run, htrap]
  | @step s s' hstep _ ih =>
    have hrun : ∀ fuel, s.run host m (fuel + 1) = s'.run host m fuel := fun fuel => by simp only [run, hstep]
    obtain ⟨steps, ⟨inst, hall⟩ | ⟨t, hinst, hall⟩⟩ := ih
    · refine ⟨steps + 1, .inl ⟨inst, fun fuel hle => ?_⟩⟩
      obtain ⟨fuel, rfl, hleft⟩ := hsucc hle
      rw [hrun, hall fuel hleft]
    · refine ⟨steps + 1, .inr ⟨t, hinst, fun fuel hle => ?_⟩⟩
      obtain ⟨fuel, rfl, hleft⟩ := hsucc hle
      rw [hrun, hall fuel hleft]

variable {locals stack : List Val} {code : List Instr} {labels : List Label} {arity : Nat}
  {callers : List Frame} {inst : Instance}

/-- An instruction without control. -/
theorem exec {op : Op} {locals' stack' : List Val} {inst' : Instance}
    (hop : (⟨⟨locals, stack, .plain op :: code, labels, arity⟩, callers, inst⟩ : State).plain host m
      code op = State.after ⟨⟨locals, stack, .plain op :: code, labels, arity⟩, callers, inst⟩ code
        (Data.exec ⟨locals, stack, inst⟩ host op))
    (h : Data.exec ⟨locals, stack, inst⟩ host op = .done ⟨locals', stack', inst'⟩)
    (k : Comes host m P ⟨⟨locals', stack', code, labels, arity⟩, callers, inst'⟩) :
    Comes host m P ⟨⟨locals, stack, .plain op :: code, labels, arity⟩, callers, inst⟩ := by
  refine .step ?_ k
  change State.plain _ host m code op = _
  rw [hop, h]
  rfl

theorem const32 {value : Int32}
    (k : Comes host m P
      ⟨⟨locals, .i32 value.toBitVec :: stack, code, labels, arity⟩, callers, inst⟩) :
    Comes host m P
      ⟨⟨locals, stack, .plain (.const32 value) :: code, labels, arity⟩, callers, inst⟩ :=
  exec rfl rfl k

theorem const64 {value : Int64}
    (k : Comes host m P
      ⟨⟨locals, .i64 value.toBitVec :: stack, code, labels, arity⟩, callers, inst⟩) :
    Comes host m P
      ⟨⟨locals, stack, .plain (.const64 value) :: code, labels, arity⟩, callers, inst⟩ :=
  exec rfl rfl k

theorem drop {v : Val}
    (k : Comes host m P ⟨⟨locals, stack, code, labels, arity⟩, callers, inst⟩) :
    Comes host m P ⟨⟨locals, v :: stack, .plain .drop :: code, labels, arity⟩, callers, inst⟩ :=
  exec rfl rfl k

theorem localGet {i : Nat} {v : Val} (h : locals[i]? = some v)
    (k : Comes host m P ⟨⟨locals, v :: stack, code, labels, arity⟩, callers, inst⟩) :
    Comes host m P ⟨⟨locals, stack, .plain (.localGet i) :: code, labels, arity⟩, callers, inst⟩ := by
  refine exec rfl ?_ k
  change Data.pushSome _ locals[i]? = _
  rw [h]
  rfl

theorem localSet {i : Nat} {v : Val} (h : i < locals.length)
    (k : Comes host m P ⟨⟨locals.set i v, stack, code, labels, arity⟩, callers, inst⟩) :
    Comes host m P
      ⟨⟨locals, v :: stack, .plain (.localSet i) :: code, labels, arity⟩, callers, inst⟩ :=
  exec rfl (if_pos h) k

theorem globalGet {i : Nat} {v : Val} (h : inst.globals[i]? = some v)
    (k : Comes host m P ⟨⟨locals, v :: stack, code, labels, arity⟩, callers, inst⟩) :
    Comes host m P
      ⟨⟨locals, stack, .plain (.globalGet i) :: code, labels, arity⟩, callers, inst⟩ := by
  refine exec rfl ?_ k
  change Data.pushSome _ inst.globals[i]? = _
  rw [h]
  rfl

theorem globalSet {i : Nat} {v : Val} (h : i < inst.globals.length)
    (k : Comes host m P ⟨⟨locals, stack, code, labels, arity⟩, callers,
      { inst with globals := inst.globals.set i v }⟩) :
    Comes host m P
      ⟨⟨locals, v :: stack, .plain (.globalSet i) :: code, labels, arity⟩, callers, inst⟩ :=
  exec rfl (if_pos h) k

theorem bin32 {op : IntBin} {x y z : BitVec 32} (h : op.eval x y = .ok z)
    (k : Comes host m P ⟨⟨locals, .i32 z :: stack, code, labels, arity⟩, callers, inst⟩) :
    Comes host m P ⟨⟨locals, .i32 y :: .i32 x :: stack, .plain (.bin .w32 op) :: code, labels,
      arity⟩, callers, inst⟩ := by
  refine exec rfl ?_ k
  unfold Data.exec Data.bin
  simp only [h]

theorem bin64 {op : IntBin} {x y z : BitVec 64} (h : op.eval x y = .ok z)
    (k : Comes host m P ⟨⟨locals, .i64 z :: stack, code, labels, arity⟩, callers, inst⟩) :
    Comes host m P ⟨⟨locals, .i64 y :: .i64 x :: stack, .plain (.bin .w64 op) :: code, labels,
      arity⟩, callers, inst⟩ := by
  refine exec rfl ?_ k
  unfold Data.exec Data.bin
  simp only [h]

theorem rel32 {op : IntRel} {x y : BitVec 32} {b : Bool} (h : op.eval x y = b)
    (k : Comes host m P ⟨⟨locals, truth b :: stack, code, labels, arity⟩, callers, inst⟩) :
    Comes host m P ⟨⟨locals, .i32 y :: .i32 x :: stack, .plain (.rel .w32 op) :: code, labels,
      arity⟩, callers, inst⟩ := by
  subst h
  exact exec rfl rfl k

theorem rel64 {op : IntRel} {x y : BitVec 64} {b : Bool} (h : op.eval x y = b)
    (k : Comes host m P ⟨⟨locals, truth b :: stack, code, labels, arity⟩, callers, inst⟩) :
    Comes host m P ⟨⟨locals, .i64 y :: .i64 x :: stack, .plain (.rel .w64 op) :: code, labels,
      arity⟩, callers, inst⟩ := by
  subst h
  exact exec rfl rfl k

theorem eqz64 {x : BitVec 64} {b : Bool} (h : (x == 0) = b)
    (k : Comes host m P ⟨⟨locals, truth b :: stack, code, labels, arity⟩, callers, inst⟩) :
    Comes host m P
      ⟨⟨locals, .i64 x :: stack, .plain (.eqz .w64) :: code, labels, arity⟩, callers, inst⟩ := by
  subst h
  exact exec rfl rfl k

theorem extend {x : BitVec 32}
    (k : Comes host m P
      ⟨⟨locals, .i64 (x.setWidth 64) :: stack, code, labels, arity⟩, callers, inst⟩) :
    Comes host m P
      ⟨⟨locals, .i32 x :: stack, .plain .extend :: code, labels, arity⟩, callers, inst⟩ :=
  exec rfl rfl k

theorem memorySize
    (k : Comes host m P ⟨⟨locals, .i32 (BitVec.ofNat 32 inst.memory.pages) :: stack, code, labels,
      arity⟩, callers, inst⟩) :
    Comes host m P
      ⟨⟨locals, stack, .plain (.memorySize 0) :: code, labels, arity⟩, callers, inst⟩ :=
  exec rfl rfl k

theorem memoryGrow {delta : BitVec 32}
    (k : Comes host m P ⟨⟨locals, (inst.grow host delta).1 :: stack, code, labels, arity⟩, callers,
      (inst.grow host delta).2⟩) :
    Comes host m P ⟨⟨locals, .i32 delta :: stack, .plain (.memoryGrow 0) :: code, labels, arity⟩,
      callers, inst⟩ :=
  exec rfl rfl k

theorem load32 {arg : MemArg} {x : BitVec 32} (h : x.toNat + arg.offset + 4 ≤ inst.memory.size)
    (k : Comes host m P ⟨⟨locals, .i32 (inst.memory.read 4 (x.toNat + arg.offset)) :: stack, code,
      labels, arity⟩, callers, inst⟩) :
    Comes host m P
      ⟨⟨locals, .i32 x :: stack, .plain (.load .w32 arg) :: code, labels, arity⟩, callers, inst⟩ :=
  exec rfl (if_pos h) k

theorem load64 {arg : MemArg} {x : BitVec 32} (h : x.toNat + arg.offset + 8 ≤ inst.memory.size)
    (k : Comes host m P ⟨⟨locals, .i64 (inst.memory.read 8 (x.toNat + arg.offset)) :: stack, code,
      labels, arity⟩, callers, inst⟩) :
    Comes host m P
      ⟨⟨locals, .i32 x :: stack, .plain (.load .w64 arg) :: code, labels, arity⟩, callers, inst⟩ :=
  exec rfl (if_pos h) k

theorem store32 {arg : MemArg} {x y : BitVec 32} (h : x.toNat + arg.offset + 4 ≤ inst.memory.size)
    (k : Comes host m P ⟨⟨locals, stack, code, labels, arity⟩, callers,
      { inst with memory := inst.memory.write 4 (x.toNat + arg.offset) y }⟩) :
    Comes host m P ⟨⟨locals, .i32 y :: .i32 x :: stack, .plain (.store .w32 arg) :: code, labels,
      arity⟩, callers, inst⟩ :=
  exec rfl (if_pos h) k

theorem store64 {arg : MemArg} {x : BitVec 32} {y : BitVec 64}
    (h : x.toNat + arg.offset + 8 ≤ inst.memory.size)
    (k : Comes host m P ⟨⟨locals, stack, code, labels, arity⟩, callers,
      { inst with memory := inst.memory.write 8 (x.toNat + arg.offset) y }⟩) :
    Comes host m P ⟨⟨locals, .i64 y :: .i32 x :: stack, .plain (.store .w64 arg) :: code, labels,
      arity⟩, callers, inst⟩ :=
  exec rfl (if_pos h) k

/-! ### Control -/

theorem unreachable (h : inst.Exhausted) :
    Comes host m P ⟨⟨locals, stack, .plain .unreachable :: code, labels, arity⟩, callers, inst⟩ :=
  .exhausted rfl h

/-- A block that takes no operands is opened. -/
theorem block {body : List Instr}
    (k : Comes host m P ⟨⟨locals, [], body, ⟨0, [], code, stack⟩ :: labels, arity⟩, callers, inst⟩) :
    Comes host m P
      ⟨⟨locals, stack, .block .empty body :: code, labels, arity⟩, callers, inst⟩ :=
  .step rfl k

theorem loop {body : List Instr}
    (k : Comes host m P ⟨⟨locals, [], body, ⟨0, [.loop .empty body], code, stack⟩ :: labels, arity⟩,
      callers, inst⟩) :
    Comes host m P ⟨⟨locals, stack, .loop .empty body :: code, labels, arity⟩, callers, inst⟩ :=
  .step rfl k

theorem cond {b : Bool} {thenBody elseBody : List Instr}
    (k : Comes host m P ⟨⟨locals, [], if b then thenBody else elseBody,
      ⟨0, [], code, stack⟩ :: labels, arity⟩, callers, inst⟩) :
    Comes host m P ⟨⟨locals, truth b :: stack, .cond .empty thenBody elseBody :: code, labels, arity⟩,
      callers, inst⟩ := by
  cases b with
  | false => exact .step rfl k
  | true => exact .step rfl k

/-- The end of a block is reached. -/
theorem close {label : Label}
    (k : Comes host m P ⟨⟨locals, stack ++ label.below, label.after, labels, arity⟩, callers, inst⟩) :
    Comes host m P ⟨⟨locals, stack, [], label :: labels, arity⟩, callers, inst⟩ :=
  .step rfl k

/-- A branch to a label that takes no operands. -/
theorem br {i : Nat} {target after : List Instr} {below : List Val} {rest : List Label}
    (h : labels.drop i = ⟨0, target, after, below⟩ :: rest)
    (k : Comes host m P ⟨⟨locals, below, target ++ after, rest, arity⟩, callers, inst⟩) :
    Comes host m P ⟨⟨locals, stack, .plain (.br i) :: code, labels, arity⟩, callers, inst⟩ := by
  refine .step ?_ k
  change State.branch _ i stack = _
  simp [State.branch, h, State.goOn]

theorem brIf_false {i : Nat}
    (k : Comes host m P ⟨⟨locals, stack, code, labels, arity⟩, callers, inst⟩) :
    Comes host m P
      ⟨⟨locals, truth false :: stack, .plain (.brIf i) :: code, labels, arity⟩, callers, inst⟩ :=
  .step rfl k

theorem brIf_true {i : Nat} {target after : List Instr} {below : List Val} {rest : List Label}
    (h : labels.drop i = ⟨0, target, after, below⟩ :: rest)
    (k : Comes host m P ⟨⟨locals, below, target ++ after, rest, arity⟩, callers, inst⟩) :
    Comes host m P
      ⟨⟨locals, truth true :: stack, .plain (.brIf i) :: code, labels, arity⟩, callers, inst⟩ := by
  refine .step ?_ k
  change State.branch _ i stack = _
  simp [State.branch, h, State.goOn]

/-- A function is called with the arguments on top of the stack. -/
theorem call {i : Nat} {callee : Module.Callee} {args : List Val} (h : m.callee? i = some callee)
    (hlen : callee.type.params.length = args.length)
    (k : Comes host m P
      ⟨callee.frame args, ⟨locals, stack, code, labels, arity⟩ :: callers, inst⟩) :
    Comes host m P ⟨⟨locals, args.reverse ++ stack, .plain (.call i) :: code, labels, arity⟩, callers,
      inst⟩ := by
  refine .step ?_ k
  simp only [State.step, State.plain, h]
  simp [State.call, hlen]

/-- A function returns to its caller. -/
theorem ret {results : List Val} {caller : Frame} (hlen : results.length = arity)
    (k : Comes host m P ⟨{ caller with stack := results ++ caller.stack }, callers, inst⟩) :
    Comes host m P ⟨⟨locals, results ++ stack, .plain .ret :: code, labels, arity⟩, caller :: callers,
      inst⟩ := by
  refine .step ?_ k
  change State.leave _ (results ++ stack) = _
  simp [State.leave, ← hlen]

/-- A function returns to its caller at the end of its code. -/
theorem finish {results : List Val} {caller : Frame} (hlen : results.length = arity)
    (k : Comes host m P ⟨{ caller with stack := results ++ caller.stack }, callers, inst⟩) :
    Comes host m P ⟨⟨locals, results ++ stack, [], [], arity⟩, caller :: callers, inst⟩ := by
  refine .step ?_ k
  change State.leave _ (results ++ stack) = _
  simp [State.leave, ← hlen]

end Comes

/-- The outermost function returns. -/
theorem step_ret {host : Host} {m : Module} {locals results : List Val} {code : List Instr}
    {labels : List Label} {arity : Nat} {inst : Instance} (hlen : results.length = arity) :
    (⟨⟨locals, results, .plain .ret :: code, labels, arity⟩, [], inst⟩ : State).step host m =
      .returned results.reverse inst := by
  change State.leave _ results = _
  simp [State.leave, ← hlen]

end State

/-! ## Memory -/

namespace LinearMemory

variable {mem : LinearMemory}

/-- The bits of what is read. -/
theorem getLsbD_read (count address i : Nat) (h : i < 8 * count) :
    (mem.read count address).getLsbD i = (mem.bytes (address + i / 8)).getLsbD (i % 8) := by
  induction count generalizing address i with
  | zero => omega
  | succ count ih =>
    rw [read, BitVec.getLsbD_append]
    by_cases hi : i < 8
    · simp [hi, Nat.div_eq_of_lt hi, Nat.mod_eq_of_lt hi]
    · simp only [hi, if_false]
      rw [ih (address + 1) (i - 8) (by omega),
        show address + 1 + (i - 8) / 8 = address + i / 8 by omega, show (i - 8) % 8 = i % 8 by omega]

/-- What was written is read. -/
@[simp] theorem read_write_self (count address : Nat) (bits : BitVec (8 * count)) :
    (mem.write count address bits).read count address = bits := by
  refine BitVec.eq_of_getLsbD_eq fun i hi => ?_
  rw [getLsbD_read _ _ _ hi]
  have hin : address ≤ address + i / 8 ∧ address + i / 8 < address + count := by omega
  simp only [write, hin, and_self, if_true, BitVec.getLsbD_extractLsb', Nat.add_sub_cancel_left]
  rw [show 8 * (i / 8) + i % 8 = i by omega]
  simp [Nat.mod_lt]

theorem read_congr {mem mem' : LinearMemory} {count address : Nat}
    (h : ∀ i, address ≤ i → i < address + count → mem.bytes i = mem'.bytes i) :
    mem.read count address = mem'.read count address := by
  refine BitVec.eq_of_getLsbD_eq fun i hi => ?_
  rw [getLsbD_read _ _ _ hi, getLsbD_read _ _ _ hi, h _ (by omega) (by omega)]

/-- What was written elsewhere is not read. -/
theorem read_write_of_disjoint {count address count' address' : Nat} {bits : BitVec (8 * count')}
    (h : address + count ≤ address' ∨ address' + count' ≤ address) :
    (mem.write count' address' bits).read count address = mem.read count address := by
  refine read_congr fun i hle hlt => ?_
  simp only [write]
  rw [if_neg (by omega)]

end LinearMemory

end StaticChain.Wasm

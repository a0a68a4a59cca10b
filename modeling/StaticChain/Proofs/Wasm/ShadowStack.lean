import StaticChain.Proofs.Wasm.Allocating
import StaticChain.Proofs.Wasm.Straight

/-!
# Frames on the shadow stack

Code that allocates on the stack moves the stack pointer down by the size of a frame, and traps if the pointer
then stands below the limit of the stack (`run_stackAlloc`, `run_stackAlloc_of_lt`). Frames that are allocated
one after the other lie within the stack, next to each other, for as long as there is room, and the first one
without room is a trap (`stack_frames`), provided that no frame is larger than the stack pointer it meets
(`WithinReach`). A larger frame is not noticed, as the pointer wraps around to an address far above the limit
(`run_stackAlloc_of_gt`).
-/

namespace StaticChain.Wasm

/-! ## One frame -/

/-- The stack pointer is set. -/
def Instance.withStack (inst : Instance) (memory : Memory) (pointer : BitVec 32) : Instance :=
  { inst with globals := inst.globals.set memory.stack (.i32 pointer) }

section

variable {host : Host} {m : Module} {memory : Memory} {locals stack : List Val} {code : List Instr}
  {labels : List Label} {arity : Nat} {callers : List Frame} {inst : Instance} {pointer size : BitVec 32}
  {bytes : UInt32}

@[simp] theorem Instance.stack?_withStack (h : inst.globals[memory.stack]? = some (.i32 pointer)) :
    (inst.withStack memory size).globals[memory.stack]? = some (.i32 size) :=
  List.getElem?_set_self (List.getElem?_eq_some_iff.1 h).1

@[simp] theorem Instance.withStack_withStack :
    (inst.withStack memory pointer).withStack memory size = inst.withStack memory size := by
  simp [withStack]

/-- The instructions up to the check compare the new stack pointer with the limit. -/
theorem run_stackAlloc_check (hpointer : inst.globals[memory.stack]? = some (.i32 pointer))
    (hsize : (Memory.roundToSlot (Memory.atLeastSlot bytes)).toInt32.toBitVec = size) :
    State.run host m 7 ⟨⟨locals, stack, memory.stackAlloc bytes ++ code, labels, arity⟩, callers, inst⟩ =
      .running ⟨⟨locals, truth ((pointer - size).ult Memory.stackLimit.toBitVec) :: stack,
        .cond .empty [.plain .unreachable] [] :: .plain (.globalGet memory.stack) :: code, labels, arity⟩,
        callers, inst.withStack memory (pointer - size)⟩ := by
  obtain ⟨hlt, heq⟩ := List.getElem?_eq_some_iff.1 hpointer
  let s : State := ⟨⟨locals, stack, code, labels, arity⟩, callers, inst⟩
  let first : List Instr := [.plain (.globalGet memory.stack),
    .plain (.const32 (Memory.roundToSlot (Memory.atLeastSlot bytes)).toInt32), .plain (.bin .w32 .sub),
    .plain (.globalSet memory.stack), .plain (.globalGet memory.stack), .plain (.const32 Memory.stackLimit),
    .plain (.rel .w32 .ltU)]
  have hdone : Data.execAll host first ⟨locals, stack, inst⟩ =
      .done ⟨locals, truth ((pointer - size).ult Memory.stackLimit.toBitVec) :: stack,
        inst.withStack memory (pointer - size)⟩ := by
    simp [first, Data.execAll, Data.push, Data.pushSome, Data.bin, Data.rel, Data.globalSet,
      IntBin.eval, IntRel.eval, Done.andThen, Instance.withStack, hsize, hlt, heq]
  change (s.withData ⟨locals, stack, inst⟩ (first ++ .cond .empty [.plain .unreachable] [] ::
    .plain (.globalGet memory.stack) :: code)).run host m first.length = _
  exact State.run_of_done hdone

/-- A frame is allocated where the new stack pointer is not below the limit. -/
theorem run_stackAlloc (hpointer : inst.globals[memory.stack]? = some (.i32 pointer))
    (hsize : (Memory.roundToSlot (Memory.atLeastSlot bytes)).toInt32.toBitVec = size)
    (hlimit : (pointer - size).ult Memory.stackLimit.toBitVec = false) :
    State.run host m 10 ⟨⟨locals, stack, memory.stackAlloc bytes ++ code, labels, arity⟩, callers, inst⟩ =
      .running ⟨⟨locals, .i32 (pointer - size) :: stack, code, labels, arity⟩, callers,
        inst.withStack memory (pointer - size)⟩ := by
  have hset : (inst.withStack memory (pointer - size)).globals[memory.stack]? = some (.i32 (pointer - size)) :=
    Instance.stack?_withStack hpointer
  have hget : Data.execAll host [.plain (.globalGet memory.stack)] ⟨locals, stack,
      inst.withStack memory (pointer - size)⟩ =
      .done ⟨locals, .i32 (pointer - size) :: stack, inst.withStack memory (pointer - size)⟩ := by
    simp only [Data.execAll, Data.exec_globalGet, hset, Data.pushSome, Data.push, Done.andThen]
  let s : State := ⟨⟨locals, stack, code, labels, arity⟩, callers, inst⟩
  rw [State.run_add 7 3, run_stackAlloc_check hpointer hsize, hlimit]
  -- The block of the check is entered and left, and the pointer is read.
  change (s.withData ⟨locals, stack, inst.withStack memory (pointer - size)⟩
    ([.plain (.globalGet memory.stack)] ++ code)).run host m 1 = _
  exact State.run_of_done hget

/-- It is a trap if the new stack pointer is below the limit. -/
theorem run_stackAlloc_of_lt (hpointer : inst.globals[memory.stack]? = some (.i32 pointer))
    (hsize : (Memory.roundToSlot (Memory.atLeastSlot bytes)).toInt32.toBitVec = size)
    (hlimit : (pointer - size).ult Memory.stackLimit.toBitVec = true) : ∃ t,
    State.run host m 10 ⟨⟨locals, stack, memory.stackAlloc bytes ++ code, labels, arity⟩, callers, inst⟩ =
      .trapped .unreachable t := by
  rw [State.run_add 7 3, run_stackAlloc_check hpointer hsize, hlimit]
  exact ⟨_, rfl⟩

/-! ## Pointers as numbers -/

/-- Whether the new stack pointer is below the limit, for a frame that is not larger than the pointer. -/
theorem ult_stackLimit {top n : Nat} (htop : top ≤ 65536) (hle : n ≤ top) :
    (BitVec.ofNat 32 top - BitVec.ofNat 32 n).ult Memory.stackLimit.toBitVec = decide (top - n < 1024) := by
  rw [BitVec.ofNat_sub_ofNat_of_le top n (by omega) hle, BitVec.ult,
    toNat_ofNat32 (by simp only [UInt32.size]; omega)]
  rfl

/-- A larger frame makes the stack pointer wrap around, to an address that is not below the limit. -/
theorem run_stackAlloc_of_gt {top n : Nat} (hn : n < 0x10000000)
    (hpointer : inst.globals[memory.stack]? = some (.i32 (BitVec.ofNat 32 top))) (hlt : top < objectSize n) :
    State.run host m 10 ⟨⟨locals, stack, memory.stackAlloc (Memory.slotOffset n) ++ code, labels, arity⟩, callers,
      inst⟩ = .running ⟨⟨locals, .i32 (BitVec.ofNat 32 (UInt32.size + top - objectSize n)) :: stack, code, labels,
        arity⟩, callers, inst.withStack memory (BitVec.ofNat 32 (UInt32.size + top - objectSize n))⟩ := by
  have hsize : objectSize n ≤ 2147483648 := by
    unfold objectSize
    omega
  have hwrap : BitVec.ofNat 32 top - BitVec.ofNat 32 (objectSize n) =
      BitVec.ofNat 32 (UInt32.size + top - objectSize n) := by
    simp only [UInt32.size]
    apply BitVec.eq_of_toNat_eq
    simp only [BitVec.toNat_sub, BitVec.toNat_ofNat]
    omega
  have hlimit : (BitVec.ofNat 32 top - BitVec.ofNat 32 (objectSize n)).ult Memory.stackLimit.toBitVec = false := by
    rw [hwrap, BitVec.ult, toNat_ofNat32 (by simp only [UInt32.size]; omega)]
    refine decide_eq_false (Nat.not_lt.2 ?_)
    change 1024 ≤ _
    simp only [UInt32.size]
    omega
  rw [run_stackAlloc hpointer (toBitVec_roundToSlot hn) hlimit, hwrap]

end

/-! ## Many frames -/

/-- Code that allocates frames with so many slots, one after the other. -/
def frameCode (memory : Memory) (slots : List Nat) : List Instr :=
  slots.flatMap fun n => memory.stackAlloc (Memory.slotOffset n)

/-- Where the frames are, with their sizes: each is right below the one before. -/
def framesBelow : Nat → List Nat → List (Nat × Nat)
  | _, [] => []
  | top, n :: slots => (top - objectSize n, objectSize n) :: framesBelow (top - objectSize n) slots

/-- The size of the frames together. -/
def framesSize : List Nat → Nat
  | [] => 0
  | n :: slots => objectSize n + framesSize slots

/-- No frame is larger than the stack pointer it meets, down to the limit of the stack. -/
def WithinReach : Nat → List Nat → Prop
  | _, [] => True
  | top, n :: slots => objectSize n ≤ top ∧ (1024 ≤ top - objectSize n → WithinReach (top - objectSize n) slots)

/-- The addresses that are left as operands, the last one on top. -/
def framePointers (frames : List (Nat × Nat)) : List Val :=
  (frames.map fun frame => .i32 (BitVec.ofNat 32 frame.1)).reverse

/-- Frames of up to a thousand bytes are within reach. -/
theorem withinReach_of_le {top : Nat} {slots : List Nat} (htop : 1024 ≤ top) (h : ∀ n ∈ slots, n ≤ 128) :
    WithinReach top slots := by
  induction slots generalizing top with
  | nil => trivial
  | cons n slots ih =>
    have hn := h n List.mem_cons_self
    refine ⟨?_, fun hge => ih hge fun k hk => h k (List.mem_cons_of_mem _ hk)⟩
    unfold objectSize
    omega

/-- Frames that fit above the limit are between the limit and the pointer they start from. -/
theorem mem_framesBelow {top : Nat} {slots : List Nat} (hroom : 1024 + framesSize slots ≤ top) {frame : Nat × Nat}
    (h : frame ∈ framesBelow top slots) : 1024 ≤ frame.1 ∧ frame.1 + frame.2 ≤ top := by
  induction slots generalizing top with
  | nil => cases h
  | cons n slots ih =>
    rw [framesSize] at hroom
    rcases List.mem_cons.1 h with rfl | hmem
    · dsimp only
      omega
    · have := ih (by omega) hmem
      omega

/-- They do not overlap. -/
theorem pairwise_framesBelow {top : Nat} {slots : List Nat} (hroom : 1024 + framesSize slots ≤ top) :
    (framesBelow top slots).Pairwise fun a b => Apart a.1 a.2 b.1 b.2 := by
  induction slots generalizing top with
  | nil => exact .nil
  | cons n slots ih =>
    rw [framesSize] at hroom
    have hroom' : 1024 + framesSize slots ≤ top - objectSize n := by omega
    exact .cons (fun frame hframe => .inr (mem_framesBelow hroom' hframe).2) (ih hroom')

section

variable {host : Host} {m : Module} {memory : Memory} {locals stack : List Val} {code : List Instr}
  {labels : List Label} {arity : Nat} {callers : List Frame} {inst : Instance} {top : Nat} {slots : List Nat}

/-- The first frame is allocated, and the others follow. -/
theorem run_frameCode_cons {n : Nat} (hn : n < 0x10000000)
    (hpointer : inst.globals[memory.stack]? = some (.i32 (BitVec.ofNat 32 top))) (htop : top ≤ 65536)
    (hle : objectSize n ≤ top) (hroom : 1024 ≤ top - objectSize n) (steps : Nat) :
    State.run host m (10 + steps) ⟨⟨locals, stack, frameCode memory (n :: slots) ++ code, labels, arity⟩, callers,
      inst⟩ = State.run host m steps ⟨⟨locals, .i32 (BitVec.ofNat 32 (top - objectSize n)) :: stack,
        frameCode memory slots ++ code, labels, arity⟩, callers,
        inst.withStack memory (BitVec.ofNat 32 (top - objectSize n))⟩ := by
  have hlimit := ult_stackLimit htop hle
  rw [decide_eq_false (by omega)] at hlimit
  rw [State.run_add, frameCode, List.flatMap_cons, List.append_assoc,
    run_stackAlloc hpointer (toBitVec_roundToSlot hn) hlimit,
    BitVec.ofNat_sub_ofNat_of_le top _ (by omega) hle, frameCode]

/-- Frames within reach are allocated as long as there is room. -/
theorem run_frameCode (hslots : ∀ n ∈ slots, n < 0x10000000)
    (hpointer : inst.globals[memory.stack]? = some (.i32 (BitVec.ofNat 32 top))) (htop : top ≤ 65536)
    (hroom : 1024 + framesSize slots ≤ top) :
    State.run host m (10 * slots.length) ⟨⟨locals, stack, frameCode memory slots ++ code, labels, arity⟩, callers,
      inst⟩ = .running ⟨⟨locals, framePointers (framesBelow top slots) ++ stack, code, labels, arity⟩, callers,
        inst.withStack memory (BitVec.ofNat 32 (top - framesSize slots))⟩ := by
  induction slots generalizing top stack inst with
  | nil =>
    have hself : inst.globals.set memory.stack (.i32 (BitVec.ofNat 32 top)) = inst.globals := by
      obtain ⟨hlt, heq⟩ := List.getElem?_eq_some_iff.1 hpointer
      rw [← heq, List.set_getElem_self]
    simp [State.run, frameCode, framePointers, framesBelow, framesSize, Instance.withStack, hself]
  | cons n slots ih =>
    rw [framesSize] at hroom ⊢
    rw [List.length_cons, Nat.mul_succ, Nat.add_comm,
      run_frameCode_cons (hslots n List.mem_cons_self) hpointer htop (by omega) (by omega),
      ih (fun k hk => hslots k (List.mem_cons_of_mem _ hk)) (Instance.stack?_withStack hpointer) (by omega) (by omega)]
    simp [framePointers, framesBelow, Nat.sub_sub]

/-- The first frame within reach that has no room is a trap. -/
theorem exists_run_frameCode_of_lt (hslots : ∀ n ∈ slots, n < 0x10000000)
    (hpointer : inst.globals[memory.stack]? = some (.i32 (BitVec.ofNat 32 top))) (htop : top ≤ 65536)
    (hge : 1024 ≤ top) (hreach : WithinReach top slots) (hroom : top < 1024 + framesSize slots) : ∃ t,
    State.run host m (10 * slots.length) ⟨⟨locals, stack, frameCode memory slots ++ code, labels, arity⟩, callers,
      inst⟩ = .trapped .unreachable t := by
  induction slots generalizing top stack inst with
  | nil => exact absurd hroom (Nat.not_lt.2 hge)
  | cons n slots ih =>
    rw [framesSize] at hroom
    obtain ⟨hle, hreach⟩ := hreach
    rw [List.length_cons, Nat.mul_succ, Nat.add_comm]
    by_cases hfits : 1024 ≤ top - objectSize n
    · rw [run_frameCode_cons (hslots n List.mem_cons_self) hpointer htop hle hfits]
      exact ih (fun k hk => hslots k (List.mem_cons_of_mem _ hk)) (Instance.stack?_withStack hpointer) (by omega)
        hfits (hreach hfits) (by omega)
    · have hlimit := ult_stackLimit htop hle
      rw [decide_eq_true (by omega)] at hlimit
      have htrap : ∃ t, State.run host m 10 ⟨⟨locals, stack, memory.stackAlloc (Memory.slotOffset n) ++
          (frameCode memory slots ++ code), labels, arity⟩, callers, inst⟩ = .trapped .unreachable t :=
        run_stackAlloc_of_lt hpointer (toBitVec_roundToSlot (hslots n List.mem_cons_self)) hlimit
      obtain ⟨t, ht⟩ := htrap
      refine ⟨t, ?_⟩
      rw [frameCode] at ht
      rw [State.run_add, frameCode, List.flatMap_cons, List.append_assoc, ht]

/-- Where the frames before fit, the pointer wraps around at one that is larger. -/
theorem run_frameCode_wraps {first rest : List Nat} {n : Nat} (hslots : ∀ k ∈ first ++ n :: rest, k < 0x10000000)
    (hpointer : inst.globals[memory.stack]? = some (.i32 (BitVec.ofNat 32 top))) (htop : top ≤ 65536)
    (hfirst : 1024 + framesSize first ≤ top) (hlt : top - framesSize first < objectSize n) :
    State.run host m (10 * (first.length + 1)) ⟨⟨locals, stack, frameCode memory (first ++ n :: rest) ++ code, labels,
      arity⟩, callers, inst⟩ =
      .running ⟨⟨locals, .i32 (BitVec.ofNat 32 (UInt32.size + (top - framesSize first) - objectSize n)) ::
          framePointers (framesBelow top first) ++ stack, frameCode memory rest ++ code, labels, arity⟩, callers,
        inst.withStack memory (BitVec.ofNat 32 (UInt32.size + (top - framesSize first) - objectSize n))⟩ := by
  have hn := hslots n (by simp)
  rw [Nat.mul_succ, State.run_add, frameCode, List.flatMap_append, List.append_assoc, ← frameCode,
    run_frameCode (fun k hk => hslots k (by simp [hk])) hpointer htop hfirst]
  simp only [List.flatMap_cons, List.append_assoc]
  rw [run_stackAlloc_of_gt hn (Instance.stack?_withStack hpointer) hlt, Instance.withStack_withStack]
  rfl

/-- What is not within reach starts with frames that there is room for and one that is larger than the pointer. -/
theorem exists_of_not_withinReach (h : ¬WithinReach top slots) (hge : 1024 ≤ top) : ∃ first n rest,
    slots = first ++ n :: rest ∧ 1024 + framesSize first ≤ top ∧ top < framesSize first + objectSize n := by
  induction slots generalizing top with
  | nil => exact absurd trivial h
  | cons n slots ih =>
    by_cases hle : objectSize n ≤ top
    · have hrest : ¬(1024 ≤ top - objectSize n → WithinReach (top - objectSize n) slots) := fun hrest => h ⟨hle, hrest⟩
      obtain ⟨hfits, hrest⟩ := Classical.not_imp.1 hrest
      obtain ⟨first, k, rest, rfl, hfirst, hk⟩ := ih hrest hfits
      refine ⟨n :: first, k, rest, rfl, ?_, ?_⟩
      all_goals
        rw [framesSize]
        omega
    · refine ⟨[], n, slots, rfl, hge, ?_⟩
      simp only [framesSize]
      omega

end

/-- Frames of any number and size are allocated on an empty stack. If none is larger than the stack pointer it
meets, code gets through exactly if all frames fit above the limit, and traps otherwise: the pointer has moved by
the size of the frames, whose addresses are left, and the frames lie within the stack and do not overlap. A larger
frame is allocated without a trap, and the pointer wraps around. -/
theorem stack_frames {slots : List Nat} (hslots : ∀ n ∈ slots, n < 0x10000000) (memory : Memory) {inst : Instance}
    (hpointer : inst.globals[memory.stack]? = some (.i32 Memory.heapStart.toBitVec)) (host : Host) (m : Module)
    (locals stack : List Val) (code : List Instr) (labels : List Label) (arity : Nat) (callers : List Frame) :
    let start : State := ⟨⟨locals, stack, frameCode memory slots ++ code, labels, arity⟩, callers, inst⟩
    (WithinReach 65536 slots →
      if 1024 + framesSize slots ≤ 65536 then
        start.run host m (10 * slots.length) =
          .running ⟨⟨locals, framePointers (framesBelow 65536 slots) ++ stack, code, labels, arity⟩, callers,
            inst.withStack memory (BitVec.ofNat 32 (65536 - framesSize slots))⟩ ∧
        (∀ frame ∈ framesBelow 65536 slots, 1024 ≤ frame.1 ∧ frame.1 + frame.2 ≤ 65536) ∧
        (framesBelow 65536 slots).Pairwise fun a b => Apart a.1 a.2 b.1 b.2
      else ∃ t, start.run host m (10 * slots.length) = .trapped .unreachable t) ∧
    (¬WithinReach 65536 slots → ∃ first n rest, slots = first ++ n :: rest ∧ 65536 < framesSize first + objectSize n ∧
      start.run host m (10 * (first.length + 1)) =
        .running ⟨⟨locals, .i32 (BitVec.ofNat 32 (UInt32.size + (65536 - framesSize first) - objectSize n)) ::
            framePointers (framesBelow 65536 first) ++ stack, frameCode memory rest ++ code, labels, arity⟩, callers,
          inst.withStack memory
            (BitVec.ofNat 32 (UInt32.size + (65536 - framesSize first) - objectSize n))⟩) := by
  have htop : inst.globals[memory.stack]? = some (.i32 (BitVec.ofNat 32 65536)) := hpointer
  refine ⟨fun hreach => ?_, fun hreach => ?_⟩
  · split
    · rename_i hroom
      exact ⟨run_frameCode hslots htop (Nat.le_refl _) hroom, fun _ => mem_framesBelow hroom,
        pairwise_framesBelow hroom⟩
    · rename_i hroom
      exact exists_run_frameCode_of_lt hslots htop (Nat.le_refl _) (by decide) hreach (by omega)
  · obtain ⟨first, n, rest, rfl, hfirst, hlt⟩ := exists_of_not_withinReach hreach (by decide)
    refine ⟨first, n, rest, rfl, by omega, ?_⟩
    exact run_frameCode_wraps hslots htop (Nat.le_refl _) hfirst (by omega)

/-- Frames of one, of no and of 128 slots on the stack of a module that has just started. -/
theorem stack_frames_three : ∃ inst, runtime.fresh? = some inst ∧ (∀ n ∈ [1, 0, 128], n < 0x10000000) ∧
    WithinReach 65536 [1, 0, 128] ∧
    State.run (fun _ => false) runtime 30 ⟨⟨[], [], frameCode ⟨0, 0, 1, 0⟩ [1, 0, 128] ++ [], [], 0⟩, [], inst⟩ =
      .running ⟨⟨[], [.i32 64496, .i32 65520, .i32 65528], [], [], 0⟩, [],
        inst.withStack ⟨0, 0, 1, 0⟩ 64496⟩ := by
  have hslots : ∀ n ∈ [1, 0, 128], n < 0x10000000 := by decide
  have hreach : WithinReach 65536 [1, 0, 128] := withinReach_of_le (by decide) (by decide)
  refine ⟨_, rfl, hslots, hreach, ?_⟩
  exact ((stack_frames hslots ⟨0, 0, 1, 0⟩ rfl (fun _ => false) runtime [] [] [] [] 0 []).1 hreach).1

/-- A frame of 8193 slots is larger than the whole stack. It is allocated without a trap, at an address that is
neither within the stack nor that of the pointer minus the size. -/
theorem large_frame_wraps : ∃ inst s, runtime.fresh? = some inst ∧ 8193 < 0x10000000 ∧ objectSize 8193 = 65544 ∧
    State.run (fun _ => false) runtime 10 ⟨⟨[], [], Memory.stackAlloc ⟨0, 0, 1, 0⟩ (Memory.slotOffset 8193), [], 0⟩, [],
      inst⟩ = .running s ∧ s.frame.stack = [.i32 4294967288] ∧ s.inst.globals = [.i32 65536, .i32 4294967288] :=
  ⟨_, _, rfl, by decide, rfl, rfl, rfl, rfl⟩

end StaticChain.Wasm

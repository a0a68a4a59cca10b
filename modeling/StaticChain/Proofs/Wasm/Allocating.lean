import StaticChain.Proofs.Wasm.Addresses

/-!
# Code that allocates

The allocator moves the end of the heap and has the memory grow as far as it has to; stack objects are
allocated in place, by moving the stack pointer. Either leaves the address of the new object and changes no
byte, or traps because memory is used up.
-/

namespace StaticChain.Wasm

/-! ## Arithmetic of addresses -/

section

variable {n k : Nat}

theorem toNat_ofNat32 (h : n < UInt32.size) : (BitVec.ofNat 32 n).toNat = n := by
  rw [BitVec.toNat_ofNat]
  exact Nat.mod_eq_of_lt h

/-- A size in bytes, rounded up to a multiple of the slot width. -/
def slotted (n : Nat) : Nat := (n + 7) / 8 * 8

theorem slotted_of_mod (h : n % 8 = 0) : slotted n = n := by
  unfold slotted
  omega

/-- Clearing the three lowest bits rounds down. -/
theorem and_slot_mask (x : BitVec 32) : x &&& (-8#32) = (x >>> 3) <<< 3 := by
  have hbit : ∀ i : Fin 32, (-8#32).getLsbD i = decide (3 ≤ i.val) := by decide
  refine BitVec.eq_of_getLsbD_eq fun i hi => ?_
  rw [BitVec.getLsbD_and, hbit ⟨i, hi⟩]
  by_cases h3 : 3 ≤ i
  · simp [h3, hi]
  · simp [h3]

/-- The allocator rounds sizes up. -/
theorem add_and_slot_mask (h : n + 7 < UInt32.size) :
    (BitVec.ofNat 32 n + 7#32) &&& (-8#32) = BitVec.ofNat 32 (slotted n) := by
  simp only [UInt32.size] at h
  rw [and_slot_mask, ← BitVec.ofNat_add]
  apply BitVec.eq_of_toNat_eq
  simp only [BitVec.toNat_shiftLeft, BitVec.toNat_ushiftRight, BitVec.toNat_ofNat, Nat.shiftLeft_eq,
    Nat.shiftRight_eq_div_pow, slotted]
  omega

/-- The size in bytes of so many pages. -/
theorem shiftLeft_pages (n : Nat) : BitVec.ofNat 32 n <<< 16 = BitVec.ofNat 32 (n * 65536) := by
  apply BitVec.eq_of_toNat_eq
  simp only [BitVec.toNat_shiftLeft, BitVec.toNat_ofNat, Nat.shiftLeft_eq]
  omega

/-- The pages that are missing. -/
theorem shiftRight_missing (hk : k < n) (h : n ≤ 4294901760) :
    (BitVec.ofNat 32 n - BitVec.ofNat 32 k + 65535#32) >>> 16 =
      BitVec.ofNat 32 ((n - k + 65535) / 65536) := by
  rw [BitVec.ofNat_sub_ofNat_of_le n k (by omega) (by omega), ← BitVec.ofNat_add]
  apply BitVec.eq_of_toNat_eq
  rw [BitVec.toNat_ushiftRight, BitVec.toNat_ofNat, BitVec.toNat_ofNat, Nat.shiftRight_eq_div_pow,
    Nat.mod_eq_of_lt (by omega), Nat.mod_eq_of_lt (by omega)]

/-- A number of pages is not the answer that says no. -/
theorem ne_refused (h : n ≤ 1024) : IntRel.eval .eq (BitVec.ofNat 32 n) (-1#32) = false := by
  refine beq_eq_false_iff_ne.2 fun heq => ?_
  have hn := congrArg BitVec.toNat heq
  rw [toNat_ofNat32 (by simp only [UInt32.size]; omega), show (-1#32).toNat = 4294967295 from rfl] at hn
  omega

/-- The offset of a slot. -/
theorem toBitVec_slotOffset (slot : Nat) :
    (Memory.slotOffset slot).toInt32.toBitVec = BitVec.ofNat 32 (8 * slot) := by
  rw [Nat.mul_comm, BitVec.ofNat_mul]
  simp [Memory.slotOffset, Memory.slotSize]

/-- The size of an object is that of its slots, at least one slot. -/
theorem toNat_atLeastSlot (h : n < 0x10000000) :
    (Memory.atLeastSlot (Memory.slotOffset n)).toNat = objectSize n := by
  have hslot : Memory.slotSize.toNat = 8 := rfl
  have hn : (Memory.slotOffset n).toNat = 8 * n := by
    simp only [Memory.slotOffset, UInt32.toNat_mul, UInt32.toNat_ofNat', hslot]
    omega
  unfold Memory.atLeastSlot objectSize
  split
  · rename_i hlt
    rw [UInt32.lt_iff_toNat_lt] at hlt
    omega
  · rename_i hlt
    rw [UInt32.lt_iff_toNat_lt] at hlt
    omega

theorem toBitVec_atLeastSlot (h : n < 0x10000000) :
    (Memory.atLeastSlot (Memory.slotOffset n)).toInt32.toBitVec = BitVec.ofNat 32 (objectSize n) := by
  rw [← toNat_atLeastSlot h]
  simp

/-- It is a multiple of the slot width. -/
theorem toBitVec_roundToSlot (h : n < 0x10000000) :
    (Memory.roundToSlot (Memory.atLeastSlot (Memory.slotOffset n))).toInt32.toBitVec =
      BitVec.ofNat 32 (objectSize n) := by
  have hmod : Memory.atLeastSlot (Memory.slotOffset n) % Memory.slotSize = 0 := by
    rw [← UInt32.toNat_inj, UInt32.toNat_mod, toNat_atLeastSlot h, objectSize]
    exact Nat.mul_mod_right ..
  rw [Memory.roundToSlot, if_pos hmod, toBitVec_atLeastSlot h]

end

/-! ## The heap -/

/-- A request for more memory is refused, or the pages are there. -/
theorem Instance.grow_cases (host : Host) (inst : Instance) (delta : BitVec 32) :
    inst.grow host delta = (.i32 (-1), { inst with requests := inst.requests + 1 }) ∨
      ∃ memory, inst.memory.grow? delta.toNat = some memory ∧ inst.grow host delta =
        (.i32 (BitVec.ofNat 32 inst.memory.pages), { inst with memory, requests := inst.requests + 1 }) := by
  unfold grow
  split
  · split
    · exact .inr ⟨_, ‹_›, rfl⟩
    · exact .inl rfl
  · exact .inl rfl

/-- A memory that has grown. -/
theorem LinearMemory.grow?_eq_some {mem mem' : LinearMemory} {delta : Nat} (h : mem.grow? delta = some mem') :
    mem'.bytes = mem.bytes ∧ mem'.limit = mem.limit ∧ mem'.pages = mem.pages + delta ∧
      ∀ limit, mem.limit = some limit → mem'.pages ≤ limit := by
  simp only [grow?] at h
  split at h
  · rename_i hle
    cases h
    refine ⟨rfl, rfl, rfl, fun limit hlimit => ?_⟩
    simpa [hlimit] using hle.2
  · cases h

/-- The heap after an allocation. -/
theorem Bounds.heap {inst inst' : Instance} {heap stack size : Nat} (h : Bounds inst heap stack)
    (hglobals : inst'.globals = inst.globals.set 0 (.i32 (BitVec.ofNat 32 (heap + size))))
    (hlimit : inst'.memory.limit = inst.memory.limit) (hpages : inst'.memory.pages ≤ 1024)
    (hsize : heap + size ≤ inst'.memory.size) : Bounds inst' (heap + size) stack := by
  refine ⟨by rw [hglobals, h.globals_eq]; rfl, by rw [hlimit, h.limit_eq], hpages, ?_, hsize, h.stack_ge,
    h.stack_le⟩
  have := h.heap_ge
  omega

namespace State.Comes

variable {host : Host} {m : Module} {P : State → Prop} {locals stack : List Val} {code : List Instr}
  {labels : List Label} {arity : Nat} {callers : List Frame} {inst : Instance} {heap top : Nat}

/-- The size of the memory is computed. -/
theorem memoryBytes
    (k : Comes host m P ⟨⟨locals, .i32 (BitVec.ofNat 32 inst.memory.size) :: stack, code, labels, arity⟩,
      callers, inst⟩) :
    Comes host m P ⟨⟨locals, stack, Memory.memoryBytes ++ code, labels, arity⟩, callers, inst⟩ := by
  refine .memorySize (.const32 (.bin32 (z := BitVec.ofNat 32 inst.memory.size) ?_ k))
  exact congrArg Except.ok (shiftLeft_pages _)

/-- More memory is asked for: it is there, or the heap reaches beyond it. -/
theorem growMemory (hb : Bounds inst heap top) {size : Nat} (hle : size ≤ 1024)
    (hlt : inst.memory.size < heap + size) {inst₁ : Instance}
    (hinst : inst₁ = { inst with globals := inst.globals.set 0 (.i32 (BitVec.ofNat 32 (heap + size))) })
    (k : ∀ inst', Bounds inst' (heap + size) top → inst'.memory.bytes = inst.memory.bytes →
      Comes host m P ⟨⟨locals, [], [], labels, arity⟩, callers, inst'⟩) :
    Comes host m P ⟨⟨locals, [], [.plain (.globalGet 0)] ++ Memory.memoryBytes ++
      [.plain (.bin .w32 .sub), .plain (.const32 0xffff), .plain (.bin .w32 .add),
        .plain (.const32 Memory.pageShift), .plain (.bin .w32 .shrU), .plain (.memoryGrow 0),
        .plain (.const32 (-1)), .plain (.rel .w32 .eq), .cond .empty [.plain .unreachable] []],
      labels, arity⟩, callers, inst₁⟩ := by
  have hheap := hb.heap_lt
  have hglobals : inst₁.globals = [.i32 (BitVec.ofNat 32 (heap + size)), .i32 (BitVec.ofNat 32 top)] := by
    rw [hinst, hb.globals_eq]
    rfl
  have hmemory : inst₁.memory = inst.memory := by rw [hinst]
  refine .globalGet (by rw [hglobals]; rfl) (.memoryBytes (.bin32 rfl (.const32 (.bin32 rfl (.const32
    (.bin32 (congrArg Except.ok (shiftRight_missing (n := heap + size) ?_ ?_)) (.memoryGrow (.const32 ?_))))))))
  · rw [hmemory]
    exact hlt
  · omega
  rcases inst₁.grow_cases host _ with hgrow | ⟨memory, hmem, hgrow⟩
  · rw [hgrow]
    refine .rel32 (b := true) rfl (.cond (.unreachable ⟨_, _, hglobals, .inr ?_⟩))
    rw [hmemory, toNat_ofNat32 (by simp only [UInt32.size]; omega)]
    exact hlt
  · rw [hgrow]
    have hpages := hb.pages_le
    obtain ⟨hbytes, hlimit, hgrown, hmax⟩ := LinearMemory.grow?_eq_some hmem
    rw [toNat_ofNat32 (by simp only [UInt32.size]; omega), hmemory] at hgrown
    refine .rel32 (ne_refused (by rw [hmemory]; exact hpages)) (.cond (.close (k _ (hb.heap ?_ ?_ ?_ ?_) ?_)))
    · rw [hinst]
    · rw [hlimit, hmemory]
    · exact hmax 1024 (by rw [hmemory, hb.limit_eq])
    · simp only [LinearMemory.size] at hlt hgrown ⊢
      omega
    · rw [hbytes, hmemory]

/-- The allocator gives the address that was the end of the heap. -/
theorem allocator (hm : m.callee? 0 = some ⟨Memory.allocatorType, [.i32 0, .i32 0], Memory.allocatorBody 0⟩)
    (hb : Bounds inst heap top) {size : Nat} (h8 : size % 8 = 0) (hle : size ≤ 1024)
    (k : ∀ inst', Bounds inst' (heap + size) top → inst'.memory.bytes = inst.memory.bytes →
      Comes host m P ⟨⟨locals, .i32 (BitVec.ofNat 32 heap) :: stack, code, labels, arity⟩, callers, inst'⟩) :
    Comes host m P ⟨⟨locals, .i32 (BitVec.ofNat 32 size) :: stack, .plain (.call 0) :: code, labels, arity⟩,
      callers, inst⟩ := by
  have hlt := hb.heap_lt
  change Comes host m P ⟨⟨locals, [Val.i32 (BitVec.ofNat 32 size)].reverse ++ stack, _, _, _⟩, _, _⟩
  refine .call hm rfl ?_
  -- The size is rounded, and the end of the heap moved.
  refine .localGet rfl (.const32 (.bin32 rfl (.const32 (.bin32 (z := BitVec.ofNat 32 size)
    (congrArg Except.ok ?_) (.localSet (by simp) ?_)))))
  · exact (add_and_slot_mask (by simp only [UInt32.size]; omega)).trans (by rw [slotted_of_mod h8])
  refine .globalGet (by rw [hb.globals_eq]; rfl) (.localSet (by simp) (.localGet rfl (.localGet rfl
    (.bin32 (z := BitVec.ofNat 32 (heap + size)) (congrArg Except.ok (BitVec.ofNat_add ..).symm)
      (.globalSet (by simp [hb.globals_eq]) ?_)))))
  refine .globalGet (by rw [hb.globals_eq]; rfl) (.memoryBytes (.rel32 (b := decide (inst.memory.size < heap + size))
    ?_ (.cond ?_)))
  · have hpages := hb.pages_le
    simp only [IntRel.eval, BitVec.ult]
    rw [toNat_ofNat32, toNat_ofNat32]
    all_goals
      simp only [UInt32.size, LinearMemory.size]
      omega
  -- Whether the memory has grown or not, the old end of the heap is the result.
  have hreturn : ∀ inst', Bounds inst' (heap + size) top → inst'.memory.bytes = inst.memory.bytes →
      Comes host m P ⟨⟨[.i32 (BitVec.ofNat 32 size), .i32 (BitVec.ofNat 32 size), .i32 (BitVec.ofNat 32 heap)],
        [], [], [⟨0, [], [.plain (.localGet 2)], []⟩], 1⟩, ⟨locals, stack, code, labels, arity⟩ :: callers,
        inst'⟩ := by
    intro inst' hb' hbytes
    refine .close (.localGet rfl ?_)
    change Comes host m P ⟨⟨_, [Val.i32 (BitVec.ofNat 32 heap)] ++ [], _, _, _⟩, _, _⟩
    exact .finish rfl (k inst' hb' hbytes)
  by_cases hgrow : inst.memory.size < heap + size
  · rw [decide_eq_true hgrow]
    exact .growMemory hb hle hgrow rfl hreturn
  · rw [decide_eq_false hgrow]
    exact hreturn _ (hb.heap rfl rfl hb.pages_le (Nat.le_of_not_lt hgrow)) rfl

/-! ## The stack -/

/-- The stack pointer moves by the size of the new object, unless the stack is used up. -/
theorem stackAlloc (hb : Bounds inst heap top) {size : Nat} (hle : size ≤ 1024) {bytes : UInt32}
    (hsize : (Memory.roundToSlot (Memory.atLeastSlot bytes)).toInt32.toBitVec = BitVec.ofNat 32 size)
    (k : ∀ inst', size ≤ top → Bounds inst' heap (top - size) → inst'.memory = inst.memory →
      Comes host m P ⟨⟨locals, .i32 (BitVec.ofNat 32 (top - size)) :: stack, code, labels, arity⟩, callers,
        inst'⟩) (memory : Memory) (hmemory : memory.stack = 1) :
    Comes host m P ⟨⟨locals, stack, memory.stackAlloc bytes ++ code, labels, arity⟩, callers, inst⟩ := by
  have hstack := hb.stack_ge
  have hheap := hb.stack_le
  simp only [Memory.stackAlloc, hmemory, List.cons_append, List.nil_append]
  refine .globalGet (by rw [hb.globals_eq]; rfl) (.const32 ?_)
  rw [hsize]
  refine .bin32 (z := BitVec.ofNat 32 (top - size)) (congrArg Except.ok ?_) (.globalSet (by simp [hb.globals_eq])
    (.globalGet (by rw [hb.globals_eq]; rfl) (.const32 (.rel32 (b := decide (top - size < 1024)) ?_ (.cond ?_)))))
  · exact BitVec.ofNat_sub_ofNat_of_le top size (by omega) (by omega)
  · change BitVec.ult _ 1024#32 = _
    simp only [BitVec.ult]
    rw [toNat_ofNat32 (by simp only [UInt32.size]; omega)]
    rfl
  by_cases hless : top - size < 1024
  · rw [decide_eq_true hless]
    refine .unreachable ⟨_, _, by rw [hb.globals_eq]; rfl, .inl ?_⟩
    change BitVec.ult _ 1024#32 = _
    simp only [BitVec.ult, decide_eq_true_eq]
    rw [toNat_ofNat32 (by simp only [UInt32.size]; omega)]
    exact hless
  · rw [decide_eq_false hless]
    refine .close (.globalGet (by rw [hb.globals_eq]; rfl) (k _ (by omega) ?_ rfl))
    exact ⟨by rw [hb.globals_eq]; rfl, hb.limit_eq, hb.pages_le, hb.heap_ge, hb.heap_le, by omega, by omega⟩

end State.Comes

end StaticChain.Wasm

import StaticChain.Proofs.Wasm.Exactness

/-!
# Blocks on the heap

Calls of the allocator hand out blocks one after the other (`Allocated`). A call traps if the end of the new block
is beyond the memory and the memory is not grown that far; otherwise it returns the end of the heap, which moves by
the size rounded up, and the memory grows by as few pages as there have to be (`HandsOut`). So blocks are aligned,
within the memory and apart from those handed out before, and no operation on 32 bits wraps around (`heap_blocks`).

The end of the heap moves before the memory is looked at, and a trap undoes nothing. As long as no call has trapped,
all blocks are in the memory and their sizes have a small sum. After a trap that sum may need more than 32 bits: the
end of the heap then wraps around, and blocks are handed out that are not in the memory (`not_handsOut_after_trap`).
-/

namespace StaticChain.Wasm

/-- The allocator, as a function that can be called. -/
def Memory.allocatorCallee (heap : Nat) : Module.Callee :=
  ⟨Memory.allocatorType, [.i32 0, .i32 0], Memory.allocatorBody heap⟩

/-- A call of the allocator. -/
def Instance.allocate (inst : Instance) (heap size : Nat) : State :=
  ⟨(Memory.allocatorCallee heap).frame [.i32 (BitVec.ofNat 32 size)], [], inst⟩

/-- A call of the allocator that is over. -/
structure Request where
  size : Nat
  /-- The address of the block, if the call has not trapped. -/
  address? : Option Nat

/-- How far requests move the end of the heap. -/
def asked : List Request → Nat
  | [] => 0
  | request :: requests => asked requests + slotted request.size

/-- The requests to an instance so far, the last one first. The memory has two pages at the start, and whatever
happens between two calls leaves the end of the heap and the size of the memory alone. After a trap, calls go on with
what it leaves. -/
inductive Allocated (host : Host) (m : Module) (heap : Nat) : List Request → Instance → Prop
  | start {inst : Instance} : inst.globals[heap]? = some (.i32 Memory.heapStart.toBitVec) → inst.memory.pages = 2 →
      inst.memory.limit = some 1024 → Allocated host m heap [] inst
  | returned {requests : List Request} {inst inst' : Instance} {size steps : Nat} {p : BitVec 32} :
      Allocated host m heap requests inst → size < 0x80000000 →
      (inst.allocate heap size).run host m steps = .returned [.i32 p] inst' →
      Allocated host m heap (⟨size, some p.toNat⟩ :: requests) inst'
  | trapped {requests : List Request} {inst : Instance} {size steps : Nat} {trap : Trap} {t : State} :
      Allocated host m heap requests inst → size < 0x80000000 →
      (inst.allocate heap size).run host m steps = .trapped trap t →
      Allocated host m heap (⟨size, none⟩ :: requests) t.inst
  | between {requests : List Request} {inst inst' : Instance} : Allocated host m heap requests inst →
      inst'.globals[heap]? = inst.globals[heap]? → inst'.memory.pages = inst.memory.pages →
      inst'.memory.limit = inst.memory.limit → Allocated host m heap requests inst'

/-- Generated modules have the allocator as their first function, and start without requests. -/
theorem Generated.allocated {lir : Lir.Module} {w : Module} (hw : Generated lir w) (host : Host) :
    w.callee? 0 = some (Memory.allocatorCallee 0) ∧ ∃ inst, w.fresh? = some inst ∧ Allocated host w 0 [] inst :=
  ⟨hw.allocator, _, hw.fresh, .start rfl rfl rfl⟩

/-! ## One call -/

/-- The end of the heap, which a trap may leave beyond the memory. -/
structure HeapEnds (heap : Nat) (inst : Instance) (top : Nat) : Prop where
  pointer : inst.globals[heap]? = some (.i32 (BitVec.ofNat 32 top))
  limit_eq : inst.memory.limit = some 1024
  pages_ge : 2 ≤ inst.memory.pages
  pages_le : inst.memory.pages ≤ 1024
  aligned : top % 8 = 0
  top_ge : 65536 ≤ top

/-- The end of the heap has moved, and the memory has as few more pages as there have to be. -/
structure Extended (host : Host) (heap : Nat) (inst inst' : Instance) (top : Nat) : Prop where
  globals_eq : inst'.globals = inst.globals.set heap (.i32 (BitVec.ofNat 32 top))
  bytes_eq : inst'.memory.bytes = inst.memory.bytes
  limit_eq : inst'.memory.limit = inst.memory.limit
  top_le : top ≤ inst'.memory.size
  pages_ge : inst.memory.pages ≤ inst'.memory.pages
  pages_le : inst'.memory.pages ≤ 1024
  least : ∀ more, top ≤ (inst.memory.pages + more) * 65536 → inst'.memory.pages ≤ inst.memory.pages + more
  granted : inst.memory.pages < inst'.memory.pages → host inst.requests = true

/-- The end of the heap has moved beyond the memory, which the host or the limit keeps from growing. -/
structure Overrun (host : Host) (heap : Nat) (inst inst' : Instance) (top : Nat) : Prop where
  globals_eq : inst'.globals = inst.globals.set heap (.i32 (BitVec.ofNat 32 top))
  memory_eq : inst'.memory = inst.memory
  size_lt : inst.memory.size < top
  refused : host inst.requests = false ∨ 1024 * 65536 < top

/-- A call of the allocator comes to its end, and no operation on 32 bits wraps around. It traps where there is no
room. Otherwise it returns the address of a block that is aligned, in the heap and in the memory, and beyond all
blocks before; the end of the heap is that of the block, rounded up, and the memory has as few more pages as there
have to be. -/
def HandsOut (host : Host) (m : Module) (heap : Nat) (requests : List Request) (inst : Instance) (size : Nat) : Prop :=
  ∃ p steps, p < UInt32.size ∧ inst.globals[heap]? = some (.i32 (BitVec.ofNat 32 p)) ∧
    (∀ k < steps, ∃ s, (inst.allocate heap size).run host m k = .running s ∧ s.Fits) ∧
    ((∃ t, (inst.allocate heap size).run host m steps = .trapped .unreachable t ∧
        Overrun host heap inst t.inst (p + slotted size)) ∨
      ∃ inst', (inst.allocate heap size).run host m steps = .returned [.i32 (BitVec.ofNat 32 p)] inst' ∧
        p % 8 = 0 ∧ 65536 ≤ p ∧ p + size ≤ inst'.memory.size ∧
        (∀ request ∈ requests, ∀ q ∈ request.address?, q + request.size ≤ p) ∧
        Extended host heap inst inst' (p + slotted size))

theorem le_slotted (n : Nat) : n ≤ slotted n := by
  unfold slotted
  omega

theorem slotted_le (n : Nat) : slotted n ≤ n + 7 := by
  unfold slotted
  omega

theorem slotted_mod (n : Nat) : slotted n % 8 = 0 := Nat.mul_mod_left ..

section

variable {host : Host} {m : Module} {heap : Nat} {inst : Instance} {top size : Nat}

theorem HeapEnds.size_le (h : HeapEnds heap inst top) : inst.memory.size ≤ 67108864 := by
  have := h.pages_le
  unfold LinearMemory.size
  omega

theorem HeapEnds.size_ge (h : HeapEnds heap inst top) : 131072 ≤ inst.memory.size := by
  have := h.pages_ge
  unfold LinearMemory.size
  omega

/-- A memory within the limit of generated modules grows as far as the limit and the host allow. -/
theorem Instance.grow_eq (hlimit : inst.memory.limit = some 1024) (delta : BitVec 32) :
    inst.grow host delta =
      if host inst.requests = true ∧ inst.memory.pages + delta.toNat ≤ 1024 then
        (.i32 (BitVec.ofNat 32 inst.memory.pages), { inst with
          memory := { inst.memory with pages := inst.memory.pages + delta.toNat }, requests := inst.requests + 1 })
      else (.i32 (-1), { inst with requests := inst.requests + 1 }) := by
  have hgrow : inst.memory.grow? delta.toNat = if inst.memory.pages + delta.toNat ≤ 1024 then
      some { inst.memory with pages := inst.memory.pages + delta.toNat } else none := by
    unfold LinearMemory.grow?
    by_cases hfits : inst.memory.pages + delta.toNat ≤ 1024
    · rw [if_pos hfits]
      exact if_pos ⟨by omega, by simpa [hlimit] using hfits⟩
    · rw [if_neg hfits]
      exact if_neg fun hall => hfits (by simpa [hlimit] using hall.2)
  unfold grow
  rw [hgrow]
  by_cases hhost : host inst.requests = true
  · by_cases hfits : inst.memory.pages + delta.toNat ≤ 1024
    · simp [hhost, hfits]
    · simp [hhost, hfits]
  · simp [hhost]

/-- A block that fits into the memory as it is. -/
theorem HeapEnds.extended (h : HeapEnds heap inst top) {next : Nat} (hle : next ≤ inst.memory.size) :
    Extended host heap inst { inst with globals := inst.globals.set heap (.i32 (BitVec.ofNat 32 next)) } next :=
  ⟨rfl, rfl, rfl, hle, Nat.le_refl _, h.pages_le, fun _ _ => Nat.le_add_right ..,
    fun hlt => absurd hlt (Nat.lt_irrefl _)⟩

/-- The pages that are missing are added. -/
theorem Extended.grown {next pages : Nat} (hlt : inst.memory.size < next)
    (hpages : pages = inst.memory.pages + (next - inst.memory.size + 65535) / 65536) (hle : pages ≤ 1024)
    (hhost : host inst.requests = true) : Extended host heap inst
      ⟨inst.globals.set heap (.i32 (BitVec.ofNat 32 next)), { inst.memory with pages }, inst.requests + 1⟩ next := by
  have hsize : inst.memory.size = inst.memory.pages * 65536 := rfl
  have htop : next ≤ pages * 65536 := by omega
  refine ⟨rfl, rfl, rfl, htop, ?_, hle, fun more hmore => ?_, fun _ => hhost⟩
  all_goals
    dsimp only
    omega

variable {P : State → Prop} {locals : List Val} {labels : List Label} {arity : Nat} {callers : List Frame}

/-- More memory is asked for: it is there, or code traps with the end of the heap where it is. -/
theorem State.Goes.growMemory (h : HeapEnds heap inst top) {next : Nat} (hnext : next < UInt32.size)
    (hlt : inst.memory.size < next) {inst₁ : Instance}
    (hinst : inst₁ = { inst with globals := inst.globals.set heap (.i32 (BitVec.ofNat 32 next)) })
    (k : ∀ inst', Extended host heap inst inst' next → State.Goes host m P (Overrun host heap inst · next)
      ⟨⟨locals, [], [], labels, arity⟩, callers, inst'⟩) :
    State.Goes host m P (Overrun host heap inst · next) ⟨⟨locals, [],
      [.plain (.globalGet heap)] ++ Memory.memoryBytes ++
      [.plain (.bin .w32 .sub), .plain (.const32 0xffff), .plain (.bin .w32 .add),
        .plain (.const32 Memory.pageShift), .plain (.bin .w32 .shrU), .plain (.memoryGrow 0),
        .plain (.const32 (-1)), .plain (.rel .w32 .eq), .cond .empty [.plain .unreachable] []],
      labels, arity⟩, callers, inst₁⟩ := by
  have hsize := h.size_le
  have hge := h.size_ge
  simp only [UInt32.size] at hnext
  have hmemory : inst₁.memory = inst.memory := by rw [hinst]
  have hpointer : inst₁.globals[heap]? = some (.i32 (BitVec.ofNat 32 next)) := by
    rw [hinst]
    exact List.getElem?_set_self (List.getElem?_eq_some_iff.1 h.pointer).1
  refine .globalGet hpointer (.memoryBytes ?_ (.sub ?_ ?_ (.const32 (.add (y := 65535) ?_ (.const32 (.shrU ?_
    (.memoryGrow (.const32 ?_))))))))
  · rw [hmemory]
    simp only [UInt32.size]
    omega
  · rw [hmemory]
    omega
  · simp only [UInt32.size]
    omega
  · rw [hmemory]
    simp only [UInt32.size]
    omega
  · rw [hmemory]
    simp only [UInt32.size]
    omega
  have hdelta : (BitVec.ofNat 32 ((next - inst.memory.size + 65535) / 65536)).toNat =
      (next - inst.memory.size + 65535) / 65536 := toNat_ofNat32 (by simp only [UInt32.size]; omega)
  rw [Instance.grow_eq (by rw [hmemory, h.limit_eq]), hmemory, hdelta]
  have hrequests : inst₁.requests = inst.requests := by rw [hinst]
  rw [hrequests]
  split
  · rename_i hgrown
    refine .rel32 (ne_refused h.pages_le) (.cond (.close (k _ ?_)))
    rw [hinst]
    exact .grown hlt rfl hgrown.2 hgrown.1
  · rename_i hrefused
    refine .rel32 (b := true) rfl (.cond (.unreachable ⟨by rw [hinst], rfl, hlt, ?_⟩))
    have hpages : inst.memory.size = inst.memory.pages * 65536 := rfl
    by_cases hhost : host inst.requests = true
    · have hbeyond : ¬inst.memory.pages + (next - inst.memory.size + 65535) / 65536 ≤ 1024 :=
        fun hle => hrefused ⟨hhost, hle⟩
      exact .inr (by omega)
    · exact .inl (Bool.eq_false_iff.2 hhost)

variable (host m) in
/-- A call of the allocator returns the end of the heap, or traps because there is no room. -/
theorem goes_allocate (h : HeapEnds heap inst top) (hsize : size < 0x80000000)
    (hfits : top + slotted size < UInt32.size) :
    State.Goes host m (fun s => s.Fits ∧ ∃ inst', s.step host m = .returned [.i32 (BitVec.ofNat 32 top)] inst' ∧
        Extended host heap inst inst' (top + slotted size))
      (Overrun host heap inst · (top + slotted size)) (inst.allocate heap size) := by
  have hmem := h.size_le
  have hlt := (List.getElem?_eq_some_iff.1 h.pointer).1
  have hset : (inst.globals.set heap (.i32 (BitVec.ofNat 32 (top + slotted size))))[heap]? =
      some (.i32 (BitVec.ofNat 32 (top + slotted size))) := List.getElem?_set_self hlt
  change State.Goes host m _ _ ⟨⟨[.i32 (BitVec.ofNat 32 size), .i32 0, .i32 0], [], Memory.allocatorBody heap, [], 1⟩,
    [], inst⟩
  -- The size is rounded, and the end of the heap moved.
  refine .localGet rfl (.roundUp ?_ (.localSet (by simp) (.globalGet h.pointer (.localSet (by simp) (.localGet rfl
    (.localGet rfl (.add hfits (.globalSet hlt ?_))))))))
  · simp only [UInt32.size]
    omega
  refine .globalGet hset (.memoryBytes ?_ (.rel32 (b := decide (inst.memory.size < top + slotted size)) ?_ (.cond ?_)))
  · simp only [UInt32.size]
    omega
  · simp only [IntRel.eval, BitVec.ult]
    rw [toNat_ofNat32 (by simp only [UInt32.size]; omega), toNat_ofNat32 hfits]
  -- Whether the memory has grown or not, the old end of the heap is the result.
  have hreturn : ∀ inst', Extended host heap inst inst' (top + slotted size) →
      State.Goes host m (fun s => s.Fits ∧ ∃ inst', s.step host m = .returned [.i32 (BitVec.ofNat 32 top)] inst' ∧
          Extended host heap inst inst' (top + slotted size))
        (Overrun host heap inst · (top + slotted size))
        ⟨⟨[.i32 (BitVec.ofNat 32 size), .i32 (BitVec.ofNat 32 (slotted size)), .i32 (BitVec.ofNat 32 top)],
          [], [], [⟨0, [], [.plain (.localGet 2)], []⟩], 1⟩, [], inst'⟩ :=
    fun inst' hext => .close (.localGet rfl (.here ⟨trivial, inst', rfl, hext⟩))
  by_cases hgrow : inst.memory.size < top + slotted size
  · rw [decide_eq_true hgrow]
    exact .growMemory h hfits hgrow rfl hreturn
  · rw [decide_eq_false hgrow]
    exact hreturn _ (h.extended (Nat.le_of_not_lt hgrow))

/-- The end of the heap after it has moved by a size. -/
theorem HeapEnds.moved {inst' : Instance} (h : HeapEnds heap inst top)
    (hglobals : inst'.globals = inst.globals.set heap (.i32 (BitVec.ofNat 32 (top + slotted size))))
    (hlimit : inst'.memory.limit = inst.memory.limit) (hpages : inst.memory.pages ≤ inst'.memory.pages)
    (hle : inst'.memory.pages ≤ 1024) : HeapEnds heap inst' (top + slotted size) := by
  have hmod := slotted_mod size
  have haligned := h.aligned
  have hge := h.top_ge
  refine ⟨?_, hlimit.trans h.limit_eq, Nat.le_trans h.pages_ge hpages, hle, by omega, by omega⟩
  rw [hglobals]
  exact List.getElem?_set_self (List.getElem?_eq_some_iff.1 h.pointer).1

theorem HeapEnds.extended_next {inst' : Instance} (h : HeapEnds heap inst top)
    (hext : Extended host heap inst inst' (top + slotted size)) : HeapEnds heap inst' (top + slotted size) :=
  h.moved hext.globals_eq hext.limit_eq hext.pages_ge hext.pages_le

/-- A trap leaves the end of the heap where the call has moved it. -/
theorem HeapEnds.overrun_next {inst' : Instance} (h : HeapEnds heap inst top)
    (hover : Overrun host heap inst inst' (top + slotted size)) : HeapEnds heap inst' (top + slotted size) :=
  have hmemory := hover.memory_eq
  h.moved hover.globals_eq (by rw [hmemory]) (Nat.le_of_eq (by rw [hmemory])) (by rw [hmemory]; exact h.pages_le)

/-! ## Runs of calls -/

variable (host m) in
/-- A call comes to its end without an operation that wraps around. -/
theorem exists_run_allocate (h : HeapEnds heap inst top) (hsize : size < 0x80000000)
    (hfits : top + slotted size < UInt32.size) : ∃ steps,
    (∀ k < steps, ∃ s, (inst.allocate heap size).run host m k = .running s ∧ s.Fits) ∧
    ((∃ t, (inst.allocate heap size).run host m steps = .trapped .unreachable t ∧
        Overrun host heap inst t.inst (top + slotted size)) ∨
      ∃ inst', (inst.allocate heap size).run host m steps = .returned [.i32 (BitVec.ofNat 32 top)] inst' ∧
        Extended host heap inst inst' (top + slotted size)) := by
  obtain ⟨n, t, hrun, hall, hend⟩ := (goes_allocate host m h hsize hfits).exists_run
  have ht : t.Fits := hend.elim And.left And.left
  have hlast : (inst.allocate heap size).run host m (n + 1) = t.run host m 1 := by rw [State.run_add, hrun]
  refine ⟨n + 1, fun k hk => ?_, ?_⟩
  · rcases Nat.lt_succ_iff_lt_or_eq.1 hk with hlt | rfl
    · exact hall k hlt
    · exact ⟨t, hrun, ht⟩
  · rcases hend with ⟨-, inst', hstep, hext⟩ | ⟨-, hstep, hover⟩
    · exact .inr ⟨inst', by rw [hlast, State.run, hstep], hext⟩
    · exact .inl ⟨t, by rw [hlast, State.run, hstep], hover⟩

/-- A call that returns has extended the heap. -/
theorem extended_of_returned (h : HeapEnds heap inst top) (hsize : size < 0x80000000)
    (hfits : top + slotted size < UInt32.size) {steps : Nat} {results : List Val} {inst' : Instance}
    (hrun : (inst.allocate heap size).run host m steps = .returned results inst') :
    results = [.i32 (BitVec.ofNat 32 top)] ∧ Extended host heap inst inst' (top + slotted size) := by
  obtain ⟨_, -, ⟨t, htrap, -⟩ | ⟨inst'', hreturned, hext⟩⟩ := exists_run_allocate host m h hsize hfits
  · cases State.run_unique hrun htrap (by simp) (by simp)
  · cases State.run_unique hrun hreturned (by simp) (by simp)
    exact ⟨rfl, hext⟩

/-- A call that traps has moved the end of the heap beyond the memory. -/
theorem overrun_of_trapped (h : HeapEnds heap inst top) (hsize : size < 0x80000000)
    (hfits : top + slotted size < UInt32.size) {steps : Nat} {trap : Trap} {t : State}
    (hrun : (inst.allocate heap size).run host m steps = .trapped trap t) :
    Overrun host heap inst t.inst (top + slotted size) := by
  obtain ⟨_, -, ⟨t', htrap, hover⟩ | ⟨inst', hreturned, -⟩⟩ := exists_run_allocate host m h hsize hfits
  · cases State.run_unique hrun htrap (by simp) (by simp)
    exact hover
  · cases State.run_unique hrun hreturned (by simp) (by simp)

variable {requests : List Request}

/-- The end of the heap is where all requests so far have moved it, and what was handed out is below it. -/
theorem Allocated.heapEnds (h : Allocated host m heap requests inst) (hfits : 65536 + asked requests < UInt32.size) :
    HeapEnds heap inst (65536 + asked requests) ∧
      ∀ request ∈ requests, ∀ q ∈ request.address?, q + request.size ≤ 65536 + asked requests := by
  induction h with
  | start hpointer hpages hlimit =>
    exact ⟨⟨hpointer, hlimit, Nat.le_of_eq hpages.symm, by rw [hpages]; decide, rfl, Nat.le_refl _⟩,
      fun _ hmem => absurd hmem List.not_mem_nil⟩
  | @returned requests inst inst' size steps p _ hsize hrun ih =>
    rw [asked, ← Nat.add_assoc] at hfits ⊢
    obtain ⟨hends, hblocks⟩ := ih (Nat.lt_of_add_right_lt hfits)
    obtain ⟨hp, hext⟩ := extended_of_returned hends hsize hfits hrun
    cases hp
    refine ⟨hends.extended_next hext, fun request hmem q hq => ?_⟩
    have hle := le_slotted size
    rcases List.mem_cons.1 hmem with rfl | hmem
    · cases hq
      rw [toNat_ofNat32 (by omega)]
      exact Nat.add_le_add_left hle _
    · exact Nat.le_trans (hblocks request hmem q hq) (Nat.le_add_right _ _)
  | @trapped requests inst size steps trap t _ hsize hrun ih =>
    rw [asked, ← Nat.add_assoc] at hfits ⊢
    obtain ⟨hends, hblocks⟩ := ih (Nat.lt_of_add_right_lt hfits)
    refine ⟨hends.overrun_next (overrun_of_trapped hends hsize hfits hrun), fun request hmem q hq => ?_⟩
    rcases List.mem_cons.1 hmem with rfl | hmem
    · cases hq
    · exact Nat.le_trans (hblocks request hmem q hq) (Nat.le_add_right _ _)
  | between _ hpointer hpages hlimit ih =>
    obtain ⟨hends, hblocks⟩ := ih hfits
    exact ⟨⟨hpointer.trans hends.pointer, hlimit.trans hends.limit_eq, hpages ▸ hends.pages_ge,
      hpages ▸ hends.pages_le, hends.aligned, hends.top_ge⟩, hblocks⟩

/-- Up to the first trap the end of the heap is within the memory. -/
theorem Allocated.within (h : Allocated host m heap requests inst)
    (hall : ∀ request ∈ requests, request.address?.isSome = true) :
    65536 + asked requests ≤ inst.memory.size ∧ inst.memory.pages ≤ 1024 := by
  induction h with
  | start _ hpages _ =>
    rw [LinearMemory.size, hpages]
    decide
  | @returned requests inst inst' size steps p h hsize hrun ih =>
    obtain ⟨hle, hpages⟩ := ih fun request hmem => hall request (List.mem_cons_of_mem _ hmem)
    have hslotted := slotted_le size
    have hfits : 65536 + asked requests + slotted size < UInt32.size := by
      simp only [LinearMemory.size] at hle
      simp only [UInt32.size]
      omega
    obtain ⟨-, hext⟩ := extended_of_returned (h.heapEnds (Nat.lt_of_add_right_lt hfits)).1 hsize hfits hrun
    exact ⟨by rw [asked, ← Nat.add_assoc]; exact hext.top_le, hext.pages_le⟩
  | trapped => exact absurd (hall _ List.mem_cons_self) (by simp)
  | between _ _ hpages _ ih =>
    rw [LinearMemory.size, hpages]
    exact ih hall

end

/-- As long as no call has trapped, and after that as long as all sizes together stay within 32 bits, a call of the
allocator with a size below two gigabytes hands out a block, or traps for lack of room. -/
theorem heap_blocks {host : Host} {m : Module} {heap : Nat} {requests : List Request} {inst : Instance}
    (h : Allocated host m heap requests inst) {size : Nat} (hsize : size < 0x80000000)
    (hfits : (∀ request ∈ requests, request.address?.isSome = true) ∨
      65536 + asked requests + slotted size < UInt32.size) : HandsOut host m heap requests inst size := by
  have hfits : 65536 + asked requests + slotted size < UInt32.size := by
    refine hfits.elim (fun hall => ?_) id
    obtain ⟨hle, hpages⟩ := h.within hall
    have hslotted := slotted_le size
    simp only [LinearMemory.size] at hle
    simp only [UInt32.size]
    omega
  obtain ⟨hends, hblocks⟩ := h.heapEnds (Nat.lt_of_add_right_lt hfits)
  obtain ⟨steps, hexact, hend⟩ := exists_run_allocate host m hends hsize hfits
  refine ⟨_, steps, Nat.lt_of_add_right_lt hfits, hends.pointer, hexact, hend.imp_right ?_⟩
  rintro ⟨inst', hrun, hext⟩
  have hle := hext.top_le
  have hslotted := le_slotted size
  exact ⟨inst', hrun, hends.aligned, hends.top_ge, by omega, hblocks, hext⟩

/-- A hundred thousand bytes after a block of 13 bytes, which needs another page. -/
theorem heap_blocks_hundred_thousand : ∃ inst, runtime.callee? 0 = some (Memory.allocatorCallee 0) ∧
    Allocated (fun _ => true) runtime 0 [⟨13, some 65536⟩] inst ∧ 100000 < 0x80000000 ∧ ∃ p steps inst',
      (inst.allocate 0 100000).run (fun _ => true) runtime steps = .returned [.i32 (BitVec.ofNat 32 p)] inst' ∧
      p = 65552 ∧ inst'.memory.pages = 3 := by
  have hcall : State.run (fun _ => true) runtime 21
      (Instance.allocate ⟨[.i32 65536, .i32 65536], ⟨fun _ => 0, 2, some 1024⟩, 0⟩ 0 13) =
    .returned [.i32 65536] ⟨[.i32 65552, .i32 65536], ⟨fun _ => 0, 2, some 1024⟩, 0⟩ := rfl
  have hfirst : Allocated (fun _ => true) runtime 0 [⟨13, some (65536 : BitVec 32).toNat⟩]
      ⟨[.i32 65552, .i32 65536], ⟨fun _ => 0, 2, some 1024⟩, 0⟩ :=
    .returned (.start rfl rfl rfl) (by decide) hcall
  refine ⟨_, rfl, hfirst, by decide, ?_⟩
  obtain ⟨p, steps, hp, hpointer, -, hend⟩ := heap_blocks hfirst (show 100000 < 0x80000000 by decide) (.inl (by simp))
  obtain rfl : p = 65552 := by
    have hbits := congrArg BitVec.toNat (Val.i32.inj (Option.some.inj hpointer))
    rw [toNat_ofNat32 hp] at hbits
    exact hbits.symm
  rcases hend with ⟨t, -, hover⟩ | ⟨inst', hrun, -, -, -, -, hext⟩
  · rcases hover.refused with hrefused | hbeyond
    · cases hrefused
    · exact absurd hbeyond (by decide)
  · have hge : 65552 + slotted 100000 ≤ inst'.memory.pages * 65536 := hext.top_le
    have hleast : inst'.memory.pages ≤ 3 := hext.least 1 (by decide)
    have hslotted : slotted 100000 = 100000 := rfl
    exact ⟨65552, steps, inst', hrun, rfl, by omega⟩

/-- Two gigabytes twice. The first call traps; the second one returns an address far beyond the memory, which still
has two pages, and leaves the end of the heap where it was at the start. -/
theorem not_handsOut_after_trap : ∃ inst,
    Allocated (fun _ => true) runtime 0 [⟨0x7fffffff, none⟩] inst ∧
    (∃ inst', (inst.allocate 0 0x7fffffff).run (fun _ => true) runtime 21 = .returned [.i32 0x80010000] inst' ∧
      inst'.memory.pages = 2 ∧ inst'.globals[0]? = some (.i32 Memory.heapStart.toBitVec)) ∧
    ¬HandsOut (fun _ => true) runtime 0 [⟨0x7fffffff, none⟩] inst 0x7fffffff := by
  obtain ⟨t, htrap, hinst⟩ : ∃ t, State.run (fun _ => true) runtime 40
      (Instance.allocate ⟨[.i32 65536, .i32 65536], ⟨fun _ => 0, 2, some 1024⟩, 0⟩ 0 0x7fffffff) =
        .trapped .unreachable t ∧ t.inst = ⟨[.i32 0x80010000, .i32 65536], ⟨fun _ => 0, 2, some 1024⟩, 1⟩ :=
    ⟨_, rfl, rfl⟩
  have hallocated := Allocated.trapped (.start rfl rfl rfl) (by decide) htrap
  rw [hinst] at hallocated
  have hreturned : State.run (fun _ => true) runtime 21
      (Instance.allocate ⟨[.i32 0x80010000, .i32 65536], ⟨fun _ => 0, 2, some 1024⟩, 1⟩ 0 0x7fffffff) =
    .returned [.i32 0x80010000] ⟨[.i32 65536, .i32 65536], ⟨fun _ => 0, 2, some 1024⟩, 1⟩ := rfl
  refine ⟨_, hallocated, ⟨_, hreturned, rfl, rfl⟩, ?_⟩
  rintro ⟨p, steps, hp, hpointer, -, ⟨t, htrap, -⟩ | ⟨inst', hrun, -, -, hle, -, -⟩⟩
  · cases State.run_unique hreturned htrap (by simp) (by simp)
  · -- The block would have to be in the memory, and its address is not.
    obtain ⟨-, rfl⟩ := Next.returned.inj (State.run_unique hreturned hrun (by simp) (by simp))
    have hbits := congrArg BitVec.toNat (Val.i32.inj (Option.some.inj hpointer))
    rw [toNat_ofNat32 hp] at hbits
    subst hbits
    exact absurd hle (by decide)

end StaticChain.Wasm

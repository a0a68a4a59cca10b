import StaticChain.Proofs.Wasm.Frames

/-!
# Instructions of the machine in generated code

One lemma for each instruction of the machine, without the calls: from a state that shows the machine before
the instruction, its code comes to one that shows the machine after it.

Code relies on more than that the machine does not fault (`Suits`): a slot is loaded and stored in the width
of what is in it, a closure is called by the signature of its function, and a quotient can be represented.
-/

namespace StaticChain.Wasm

open Lir (ValueId LocalId FunctionId StructId AllocKind Inst Ty)
open Machine (Activation Block CallStack Value Object ObjectId Store reachOf)

/-- The value is of the storage type. -/
def Stored : Ty → Value → Prop
  | .i64, v => ∃ x, v = .int x
  | .ptr, v => ∃ c, v = .ofContext c
  | .closure, v => ∃ f c, v = .closure f c

/-- What the code of an instruction relies on in an activation. -/
def Suits (lir : Lir.Module) (a : Activation) (s : Store) : Inst → Prop
  | .binary _ .div lhs rhs =>
    ¬(a.value lhs = .ok (.int Int64.minValue) ∧ a.value rhs = .ok (.int (-1)))
  | .load _ addr ty => ∀ o object k v, a.value addr = .ok (.slot o k) →
    s.objects[o.index]? = some object → object.slots[k]? = some (some v) → Stored ty v
  | .store _ value ty => ∀ v, a.value value = .ok v → Stored ty v
  | .makeClosure dest function context => dest ≠ context ∧ (lir.function? function).isSome = true
  | .callClosure _ closure _ signature => ∀ f c, a.value closure = .ok (.closure f c) →
    ∃ g, lir.function? f = some g ∧ g.params = signature.params ∧ g.ret = signature.ret
  | _ => True

/-! ## Arithmetic -/

section

variable (x y : Int64)

theorem toBitVec_beq : (x.toBitVec == y.toBitVec) = (x == y) := by
  rw [Bool.eq_iff_iff, beq_iff_eq, beq_iff_eq]
  exact Int64.toBitVec_inj

theorem toBitVec_bne : (x.toBitVec != y.toBitVec) = (x != y) := by
  rw [bne, toBitVec_beq, bne]

theorem toBitVec_slt : x.toBitVec.slt y.toBitVec = decide (x < y) := by
  rw [Bool.eq_iff_iff, decide_eq_true_iff]
  exact Iff.rfl

theorem toBitVec_sle : x.toBitVec.sle y.toBitVec = decide (x ≤ y) := by
  rw [Bool.eq_iff_iff, decide_eq_true_iff]
  exact Iff.rfl

end

section

variable {host : Host} {m : Module} {P : State → Prop} {locals stack : List Val} {code : List Instr}
  {labels : List Label} {arity : Nat} {callers : List Frame} {inst : Instance}

/-- A truth value is extended to 64 bits. -/
theorem State.Comes.extendTruth {b : Bool} {x : Int64} (h : Value.ofBool b = .int x)
    (k : State.Comes host m P ⟨⟨locals, .i64 x.toBitVec :: stack, code, labels, arity⟩, callers, inst⟩) :
    State.Comes host m P ⟨⟨locals, truth b :: stack, .plain .extend :: code, labels, arity⟩, callers, inst⟩ := by
  cases b <;> cases h <;> exact .extend k

/-- The code of an operator computes what the machine does, where the quotient can be represented. -/
theorem State.Comes.binary {op : Lir.BinOp} {x y z : Int64} (h : Machine.binary op x y = .ok (.int z))
    (hdiv : op = .div → ¬(x = Int64.minValue ∧ y = -1))
    (k : State.Comes host m P ⟨⟨locals, .i64 z.toBitVec :: stack, code, labels, arity⟩, callers, inst⟩) :
    State.Comes host m P ⟨⟨locals, .i64 y.toBitVec :: .i64 x.toBitVec :: stack, Site.binary op ++ code, labels,
      arity⟩, callers, inst⟩ := by
  have hzero : y ≠ 0 → y.toBitVec ≠ (0 : BitVec 64) := fun hy heq => hy (Int64.toBitVec_inj.1 heq)
  cases op with
  | add =>
    cases h
    exact .bin64 rfl k
  | sub =>
    cases h
    exact .bin64 rfl k
  | mul =>
    cases h
    exact .bin64 rfl k
  | div =>
    simp only [Machine.binary] at h
    split at h
    · cases h
    rename_i hy
    cases h
    have hover : ¬(x.toBitVec = BitVec.intMin 64 ∧ y.toBitVec = -1) := by
      rintro ⟨hx, hy⟩
      exact hdiv rfl ⟨Int64.toBitVec_inj.1 hx, Int64.toBitVec_inj.1 hy⟩
    exact .bin64 ((if_neg (hzero hy)).trans (if_neg hover)) k
  | rem =>
    simp only [Machine.binary] at h
    split at h
    · cases h
    rename_i hy
    cases h
    exact .bin64 (if_neg (hzero hy)) k
  | eq => exact .rel64 (toBitVec_beq x y) (.extendTruth (Except.ok.inj h) k)
  | ne => exact .rel64 (toBitVec_bne x y) (.extendTruth (Except.ok.inj h) k)
  | lt => exact .rel64 (toBitVec_slt x y) (.extendTruth (Except.ok.inj h) k)
  | le => exact .rel64 (toBitVec_sle x y) (.extendTruth (Except.ok.inj h) k)
  | gt => exact .rel64 (toBitVec_slt y x) (.extendTruth (Except.ok.inj h) k)
  | ge => exact .rel64 (toBitVec_sle y x) (.extendTruth (Except.ok.inj h) k)

/-- The code of an operator with one operand. -/
theorem State.Comes.unary {s : Site} {op : Lir.UnaryOp} {r : ValueId} {x z : Int64}
    (hr : locals[s.value r]? = some (.i64 x.toBitVec)) (h : Machine.unary op x = .int z)
    (k : State.Comes host m P ⟨⟨locals, .i64 z.toBitVec :: stack, code, labels, arity⟩, callers, inst⟩) :
    State.Comes host m P ⟨⟨locals, stack, s.unary r op ++ code, labels, arity⟩, callers, inst⟩ := by
  cases op with
  | neg =>
    cases h
    exact .const64 (.localGet hr (.bin64 (congrArg Except.ok (by simp)) k))
  | eqz =>
    refine .localGet hr (.eqz64 (toBitVec_beq_zero x) (.extendTruth ?_ k))
    rw [← h, Machine.unary, beq_eq_decide]

/-! ## Memory -/

/-- A value is loaded and stored in the width of what stands for it. -/
theorem Shows.width {A : AddressMap} {v : Value} {x : Val} (h : Shows A v x) {ty : Ty} (hty : Stored ty v) :
    (Site.width ty = .w64 ∧ ∃ bits, x = .i64 bits) ∨ (Site.width ty = .w32 ∧ ∃ bits, x = .i32 bits) := by
  cases ty with
  | i64 =>
    obtain ⟨_, rfl⟩ := hty
    cases h
    exact .inl ⟨rfl, _, rfl⟩
  | ptr =>
    obtain ⟨c, rfl⟩ := hty
    exact .inr ⟨rfl, h.exists_ofContext⟩
  | closure =>
    obtain ⟨_, _, rfl⟩ := hty
    cases h
    exact .inr ⟨rfl, _, rfl⟩

/-- What is in a slot is loaded. -/
theorem State.Comes.loadSlot {A : AddressMap} {v : Value} {x : Val} (hx : Shows A v x) {ty : Ty}
    (hty : Stored ty v) {address : Nat} (hlt : address < UInt32.size) (hle : address + 8 ≤ inst.memory.size)
    (hholds : inst.memory.Holds address x)
    (k : State.Comes host m P ⟨⟨locals, x :: stack, code, labels, arity⟩, callers, inst⟩) :
    State.Comes host m P ⟨⟨locals, .i32 (BitVec.ofNat 32 address) :: stack,
      .plain (.load (Site.width ty) (Memory.arg (Site.width ty))) :: code, labels, arity⟩, callers, inst⟩ := by
  rw [← toNat_ofNat32 hlt] at hle hholds
  rcases hx.width hty with ⟨hwidth, bits, rfl⟩ | ⟨hwidth, bits, rfl⟩
  · rw [hwidth]
    cases (show inst.memory.read 8 _ = bits from hholds)
    exact .load64 hle k
  · rw [hwidth]
    cases (show inst.memory.read 4 _ = bits from hholds)
    exact .load32 (Nat.le_trans (Nat.add_le_add_left (by decide) _) hle) k

/-- A slot is written. -/
theorem State.Comes.storeSlot {A : AddressMap} {v : Value} {x : Val} (hx : Shows A v x) {ty : Ty}
    (hty : Stored ty v) {address : Nat} (hlt : address < UInt32.size) (hle : address + 8 ≤ inst.memory.size)
    (k : State.Comes host m P ⟨⟨locals, stack, code, labels, arity⟩, callers,
      { inst with memory := inst.memory.put address x }⟩) :
    State.Comes host m P ⟨⟨locals, x :: .i32 (BitVec.ofNat 32 address) :: stack,
      .plain (.store (Site.width ty) (Memory.arg (Site.width ty))) :: code, labels, arity⟩, callers, inst⟩ := by
  rw [← toNat_ofNat32 hlt] at hle k
  rcases hx.width hty with ⟨hwidth, bits, rfl⟩ | ⟨hwidth, bits, rfl⟩
  · rw [hwidth]
    exact .store64 hle k
  · rw [hwidth]
    exact .store32 (Nat.le_trans (Nat.add_le_add_left (by decide) _) hle) k

end

/-! ## Stores that grow -/

section

variable {lir : Lir.Module} {w : Module} {A : AddressMap} {heap stack start : Nat} {a : Activation}
  {waiting : List Activation} {s : Store} {locals : List Val} {frames : List Frame} {inst inst' : Instance}

/-- An object on the heap is allocated. -/
theorem Shown.allocateHeap (h : Shown lir A heap stack start a waiting s locals frames inst) (struct : StructId)
    {slots : Nat} (hbounds : Bounds inst' (heap + objectSize slots) stack)
    (hbytes : inst'.memory.bytes = inst.memory.bytes) :
    Shown lir (A.addObject heap) (heap + objectSize slots) stack start a waiting
      (s.allocate struct .heap slots) locals frames inst' := by
  have hext := A.extends_addObject heap
  refine ⟨?_, h.shows.mono hext, h.keeps.mono hext, h.callers.mono hext, ?_⟩
  · exact h.placed.allocate hbounds hbytes (by omega) (Nat.le_refl _) struct
      ⟨h.placed.bounds.heap_ge, Nat.le_refl _⟩ (.inl (Nat.le_refl _))
  · intro o object ho hlive hkind
    rw [Store.get?_allocate] at ho
    split at ho
    · cases ho
      cases hkind
    · exact h.owned o object ho hlive hkind

/-- A slot is written. -/
theorem Shown.set (h : Shown lir A heap stack start a waiting s locals frames inst) {o : ObjectId}
    {object : Object} {p : Nat} (hat : LiveAt A s o object p) {k : Nat} (hk : k < object.slots.size) {v : Value}
    {x : Val} (hx : Shows A v x) :
    Shown lir A heap stack start a waiting (s.set o k v) locals frames
      { inst with memory := inst.memory.put (p + 8 * k) x } := by
  refine ⟨h.placed.set hat hk hx, h.shows, h.keeps, h.callers, ?_⟩
  intro o' object' ho hlive hkind
  rw [Store.get?_set] at ho
  split at ho
  · obtain ⟨old, hold, rfl⟩ := Option.map_eq_some_iff.1 ho
    exact h.owned o' old hold hlive hkind
  · exact h.owned o' object' ho hlive hkind

/-- The number of a new object has its address. -/
theorem Shown.address_next (h : Shown lir A heap stack start a waiting s locals frames inst) (p : Nat) :
    (A.addObject p).objects[s.next.index]? = some p := by
  simp [AddressMap.addObject, Store.next, ← h.placed.length_eq]

/-- A closure is made. -/
theorem Shown.addCell (h : Shown lir A heap stack start a waiting s locals frames inst) {f : FunctionId}
    {c : Option ObjectId} (htarget : ∃ g ∈ closureTargets lir, lir.function? f = some g)
    (hbounds : Bounds inst' (heap + 8) stack) (hbytes : inst'.memory.bytes = inst.memory.bytes) {x : Val}
    (hx : Shows A (.ofContext c) x) :
    Shown lir (A.addCell ⟨heap, f, c⟩) (heap + 8) stack start a waiting s locals frames
      { inst' with memory := (inst'.memory.put heap (.i32 (BitVec.ofNat 32 f.index))).put (heap + 4) x } := by
  have hext := A.extends_addCell ⟨heap, f, c⟩
  have hsize : x.size = 4 := by
    obtain ⟨bits, rfl⟩ := hx.exists_ofContext
    rfl
  refine ⟨h.placed.addCell ?_ (by omega) (Nat.le_refl _) ?_ ⟨?_, ?_, ⟨x, hx, LinearMemory.holds_put_self _ _⟩,
    htarget⟩, h.shows.mono hext, h.keeps.mono hext, h.callers.mono hext, h.owned⟩
  · exact ⟨hbounds.globals_eq, by simp [hbounds.limit_eq], by simp [hbounds.pages_le], hbounds.heap_ge,
      by simp [hbounds.heap_le], hbounds.stack_ge, hbounds.stack_le⟩
  · intro address y hle hholds
    refine ((hholds.congr hbytes).put (.inl hle)).put (.inl ?_)
    omega
  · exact ⟨h.placed.bounds.heap_ge, Nat.le_refl _⟩
  · refine (LinearMemory.holds_put_self _ _).put (.inl ?_)
    simp [Val.size]

/-- An object on the stack is allocated, by a function that sets the stack back. -/
theorem Shown.allocateStack (h : Shown lir A heap stack start a waiting s locals frames inst) (struct : StructId)
    {slots : Nat} (hle : objectSize slots ≤ stack) (hbounds : Bounds inst' heap (stack - objectSize slots))
    (hmemory : inst'.memory = inst.memory) (hsaved : allocatesOnStack a.function = true) :
    Shown lir (A.addObject (stack - objectSize slots)) heap (stack - objectSize slots) start
      { a with owned := s.next :: a.owned } waiting (s.allocate struct .stack slots) locals frames inst' := by
  have hext := A.extends_addObject (stack - objectSize slots)
  have hstack := h.placed.bounds.stack_le
  refine ⟨?_, (h.shows.mono hext).withOwned _, ⟨?_, h.keeps.start_le, ?_, h.keeps.saved, ?_⟩,
    h.callers.mono hext, ?_⟩
  · refine h.placed.allocate hbounds (by rw [hmemory]) (Nat.le_refl _) (by omega) struct
      ⟨Nat.le_refl _, by omega⟩ (.inr (by omega))
  · have := h.keeps.le
    omega
  · intro o ho
    rcases List.mem_cons.1 ho with rfl | ho
    · exact ⟨_, h.address_next _, Nat.le_refl _⟩
    · obtain ⟨p, hp, hlow⟩ := h.keeps.owned o ho
      exact ⟨p, hext.address hp, by omega⟩
  · intro hnone
    simp [Site.saved?, hsaved] at hnone
  · intro o object ho hlive hkind
    rw [Store.get?_allocate] at ho
    split at ho
    · rename_i heq
      have : o = s.next := congrArg ObjectId.mk heq
      simp [this]
    · have := h.owned o object ho hlive hkind
      simp only [Machine.reachOf_cons, List.mem_append, List.cons_append, List.mem_cons] at this ⊢
      exact .inr this

end

/-! ## Instructions -/

/-- A function of which a closure is made somewhere. -/
theorem mem_closureTargets {lir : Lir.Module} {f g : Lir.Function} {function : FunctionId}
    (hg : lir.function? function = some g) (hf : f ∈ lir.functions) {dest context : ValueId}
    (hi : .makeClosure dest function context ∈ Lir.allInsts f.body) : g ∈ closureTargets lir := by
  refine List.mem_map.2 ⟨(g, function.index), List.mem_filter.2 ⟨?_, ?_⟩, rfl⟩
  · exact List.mem_zipIdx_iff_getElem?.2 (by simpa [Lir.Module.function?] using hg)
  · simp only [List.contains_iff_mem, List.mem_filterMap, List.mem_flatMap]
    exact ⟨_, ⟨f, by simpa using hf, hi⟩, rfl⟩

section

variable {lir : Lir.Module} {w : Module} (hw : Ready lir w) {host : Host} {A : AddressMap}
  {heap stack start : Nat} {a : Activation} {c : CallStack} {s : Store} {locals : List Val}
  {frames : List Frame} {inst : Instance} {code : List Instr} {labels : List Label}
  (h : Shown lir A heap stack start a c.waiting s locals frames inst)
  (hb : BlocksCode (siteOf lir a.function) a.blocks code labels)
include hw h hb

/-- What an instruction computes is put into the local of its value. -/
theorem Shown.comes_set {dest : ValueId} (hd : dest.index < a.function.valueTypes.size) {v : Value} {x : Val}
    (hx : Shows A v x) : State.Comes host w (Sim lir ⟨a.define dest v, c, s⟩)
      ⟨⟨locals, [x], (siteOf lir a.function).set dest :: code, labels, a.function.ret.toList.length⟩, frames,
        inst⟩ := by
  refine .localSet ?_ (.here (.mk (h.define hw hd hx) hb))
  rw [h.shows.length_eq, Site.value_eq hw h.shows.function_eq hd]
  exact Site.value_lt lir hd

/-- A local is set. -/
theorem Shown.comes_localSet {l : LocalId} (hl : l.index < a.locals.size) {r : ValueId} {v : Value}
    (hv : a.value r = .ok v) : State.Comes host w (Sim lir ⟨a.assign l v, c, s⟩)
      ⟨⟨locals, [], [(siteOf lir a.function).get r, .plain (.localSet l.index)] ++ code, labels,
        a.function.ret.toList.length⟩, frames, inst⟩ := by
  obtain ⟨x, hget, hx⟩ := h.shows.get hw hv
  refine .localGet hget (.localSet ?_ (.here (.mk (h.assign hw hl hx) hb)))
  have hsize := h.shows.locals_size
  rw [h.shows.length_eq]
  simp only [Site.localCount, siteOf_function]
  omega

/-- An object is allocated on the heap. -/
theorem Shown.comes_allocateHeap {struct : StructId} {slots : Nat} (hsmall : slots ≤ 128) {dest : ValueId}
    (hd : dest.index < a.function.valueTypes.size) :
    State.Comes host w (Sim lir ⟨a.define dest (.object s.next), c, s.allocate struct .heap slots⟩)
      ⟨⟨locals, [], (siteOf lir a.function).memory.heapAlloc (Memory.slotOffset slots) ++
        [(siteOf lir a.function).set dest] ++ code, labels, a.function.ret.toList.length⟩, frames, inst⟩ := by
  refine .const32 ?_
  rw [toBitVec_atLeastSlot (by omega)]
  refine .allocator hw.generated.allocator h.placed.bounds ?_ ?_ fun inst' hbounds hbytes => ?_
  · simp [objectSize]
  · unfold objectSize
    omega
  · exact (h.allocateHeap struct hbounds hbytes).comes_set hw hb hd (.object (h.address_next heap))

/-- An object is allocated on the stack. -/
theorem Shown.comes_allocateStack {struct : StructId} {slots : Nat} (hsmall : slots ≤ 128)
    (hsaved : allocatesOnStack a.function = true) {dest : ValueId}
    (hd : dest.index < a.function.valueTypes.size) :
    State.Comes host w (Sim lir ⟨{ a.define dest (.object s.next) with owned := s.next :: a.owned }, c,
        s.allocate struct .stack slots⟩)
      ⟨⟨locals, [], (siteOf lir a.function).memory.stackAlloc (Memory.slotOffset slots) ++
        [(siteOf lir a.function).set dest] ++ code, labels, a.function.ret.toList.length⟩, frames, inst⟩ := by
  rw [List.append_assoc]
  refine .stackAlloc h.placed.bounds ?_ (toBitVec_roundToSlot (by omega)) (fun inst' hle hbounds hmemory => ?_) _ rfl
  · unfold objectSize
    omega
  · exact (h.allocateStack struct hle hbounds hmemory hsaved).comes_set hw hb hd (.object (h.address_next _))

/-- A slot is addressed. -/
theorem Shown.comes_fieldAddr {dest base : ValueId} (hd : dest.index < a.function.valueTypes.size)
    {o : ObjectId} (ho : a.value base = .ok (.object o)) (slot : Nat) :
    State.Comes host w (Sim lir ⟨a.define dest (.slot o slot), c, s⟩)
      ⟨⟨locals, [], [(siteOf lir a.function).get base, .plain (.const32 (Memory.slotOffset slot).toInt32),
        .plain (.bin .w32 .add), (siteOf lir a.function).set dest] ++ code, labels,
        a.function.ret.toList.length⟩, frames, inst⟩ := by
  obtain ⟨x, hget, hx⟩ := h.shows.get hw ho
  cases hx with | @object _ p hp =>
  refine .localGet hget (.const32 ?_)
  rw [toBitVec_slotOffset]
  refine .bin32 (congrArg Except.ok (BitVec.ofNat_add ..).symm) ?_
  exact h.comes_set hw hb hd (.slot slot hp)

/-- A slot is read. -/
theorem Shown.comes_load {dest addr : ValueId} (hd : dest.index < a.function.valueTypes.size) {o : ObjectId}
    {k : Nat} {object : Object} {v : Value} (haddr : a.value addr = .ok (.slot o k))
    (ho : s.objects[o.index]? = some object) (hlive : object.live = true)
    (hv : object.slots[k]? = some (some v)) {ty : Ty} (hty : Stored ty v) :
    State.Comes host w (Sim lir ⟨a.define dest v, c, s⟩)
      ⟨⟨locals, [], [(siteOf lir a.function).get addr,
        .plain (.load (Site.width ty) (Memory.arg (Site.width ty))), (siteOf lir a.function).set dest] ++ code,
        labels, a.function.ret.toList.length⟩, frames, inst⟩ := by
  obtain ⟨x, hget, hx⟩ := h.shows.get hw haddr
  cases hx with | @slot _ p _ hp =>
  have hat : LiveAt A s o object p := ⟨ho, hlive, hp⟩
  obtain ⟨y, hy, hholds⟩ := h.placed.slot _ _ _ _ _ hat hv
  obtain ⟨hlt, hle⟩ := h.placed.slot_lt hat (Array.getElem?_eq_some_iff.1 hv).1
  exact .localGet hget (.loadSlot hy hty hlt hle hholds (h.comes_set hw hb hd hy))

/-- A slot is written. -/
theorem Shown.comes_store {addr value : ValueId} {o : ObjectId} {k : Nat} {object : Object} {v : Value}
    (haddr : a.value addr = .ok (.slot o k)) (hv : a.value value = .ok v)
    (ho : s.objects[o.index]? = some object) (hlive : object.live = true) (hk : k < object.slots.size)
    {ty : Ty} (hty : Stored ty v) :
    State.Comes host w (Sim lir ⟨a, c, s.set o k v⟩)
      ⟨⟨locals, [], [(siteOf lir a.function).get addr, (siteOf lir a.function).get value,
        .plain (.store (Site.width ty) (Memory.arg (Site.width ty)))] ++ code, labels,
        a.function.ret.toList.length⟩, frames, inst⟩ := by
  obtain ⟨x, hget, hx⟩ := h.shows.get hw haddr
  obtain ⟨y, hgety, hy⟩ := h.shows.get hw hv
  cases hx with | @slot _ p _ hp =>
  have hat : LiveAt A s o object p := ⟨ho, hlive, hp⟩
  obtain ⟨hlt, hle⟩ := h.placed.slot_lt hat hk
  exact .localGet hget (.localGet hgety (.storeSlot hy hty hlt hle (.here (.mk (h.set hat hk hy) hb))))

/-- A closure is made. The code stores the context after it has set the local of the closure. -/
theorem Shown.comes_makeClosure {dest context : ValueId} (hd : dest.index < a.function.valueTypes.size)
    {f : FunctionId} {o : Option ObjectId} (ho : a.value context = .ok (.ofContext o)) (hne : dest ≠ context)
    (htarget : ∃ g ∈ closureTargets lir, lir.function? f = some g) :
    State.Comes host w (Sim lir ⟨a.define dest (.closure f o), c, s⟩)
      ⟨⟨locals, [], (siteOf lir a.function).memory.heapAlloc Memory.closureSize ++
        [(siteOf lir a.function).set dest, (siteOf lir a.function).get dest,
          .plain (.const32 (Int32.ofNat f.index)), .plain (.store .w32 Memory.closureFunction),
          (siteOf lir a.function).get dest, (siteOf lir a.function).get context,
          .plain (.store .w32 Memory.closureContext)] ++ code, labels, a.function.ret.toList.length⟩, frames,
        inst⟩ := by
  obtain ⟨x, hget, hx⟩ := h.shows.get hw ho
  obtain ⟨bits, rfl⟩ := hx.exists_ofContext
  have hcontext : context.index < a.function.valueTypes.size := by
    rw [← h.shows.values_size]
    exact (Array.getElem?_eq_some_iff.1 (Activation.value_eq_ok.1 ho)).1
  have hlt : (siteOf lir a.function).value dest < locals.length := by
    rw [h.shows.length_eq, Site.value_eq hw h.shows.function_eq hd]
    exact Site.value_lt lir hd
  have hapart : (siteOf lir a.function).value dest ≠ (siteOf lir a.function).value context := by
    rw [Site.value_eq hw h.shows.function_eq hd, Site.value_eq hw h.shows.function_eq hcontext]
    intro heq
    exact hne (congrArg ValueId.mk (by omega))
  refine .const32 ?_
  change State.Comes host w _ ⟨⟨locals, [.i32 (BitVec.ofNat 32 8)], _, _, _⟩, _, _⟩
  refine .allocator hw.generated.allocator h.placed.bounds rfl (by omega) fun inst' hbounds hbytes => ?_
  have hheap := hbounds.heap_le
  have haddress := toNat_ofNat32 (n := heap) (by
    have := hbounds.heap_lt
    simp only [UInt32.size]
    omega)
  refine .localSet hlt (.localGet (List.getElem?_set_self hlt) (.const32 (.store32 ?_ (.localGet
    (List.getElem?_set_self hlt) (.localGet ((List.getElem?_set_ne hapart).trans hget) (.store32 ?_ (.here ?_)))))))
  · rw [haddress]
    change heap + 4 ≤ _
    omega
  · rw [haddress]
    change heap + 4 + 4 ≤ inst'.memory.size
    omega
  · rw [haddress]
    have hclosure : Shows (A.addCell ⟨heap, f, o⟩) (.closure f o) (.i32 (BitVec.ofNat 32 heap)) :=
      @Shows.closure _ ⟨heap, f, o⟩ List.mem_cons_self
    exact .mk ((h.addCell htarget hbounds hbytes hx).define hw hd hclosure) hb

/-- One of two ways is taken. -/
theorem Shown.comes_branch {condition : ValueId} {x : Int64} (hx : a.value condition = .ok (.int x))
    {thenBody elseBody : List Inst} {thenCode elseCode : List Instr}
    (ht : (siteOf lir a.function).CodeOf thenBody thenCode)
    (he : (siteOf lir a.function).CodeOf elseBody elseCode) :
    State.Comes host w (Sim lir ⟨a.openBlock ⟨if x = 0 then elseBody else thenBody, .straight⟩, c, s⟩)
      ⟨⟨locals, [], [(siteOf lir a.function).get condition, .plain (.const64 0), .plain (.rel .w64 .ne),
        .cond .empty thenCode elseCode] ++ code, labels, a.function.ret.toList.length⟩, frames, inst⟩ := by
  refine .localGet (h.shows.ints hw _ _ hx) (.const64 (.rel64 (toBitVec_bne x 0) (.cond (.here ?_))))
  refine .mk (h.withBlocks _) (.straight ?_ hb)
  change (siteOf lir a.function).CodeOf _ _
  by_cases hzero : x = 0
  · simpa [hzero] using he
  · simpa [hzero, bne] using ht

omit hw in
/-- A loop is entered. -/
theorem Shown.comes_loop {header body : List Inst} {condition : ValueId} {headerCode bodyCode : List Instr}
    (hheader : (siteOf lir a.function).CodeOf header headerCode)
    (hbody : (siteOf lir a.function).CodeOf body bodyCode) :
    State.Comes host w (Sim lir ⟨a.openBlock ⟨header, .header ⟨header, condition, body⟩⟩, c, s⟩)
      ⟨⟨locals, [], [.block .empty [.loop .empty (headerCode ++ [(siteOf lir a.function).get condition,
        .plain (.eqz .w64), .plain (.brIf 1)] ++ bodyCode ++ [.plain (.br 0)])]] ++ code, labels,
        a.function.ret.toList.length⟩, frames, inst⟩ := by
  have hassoc : headerCode ++ [(siteOf lir a.function).get condition, .plain (.eqz .w64), .plain (.brIf 1)] ++
      bodyCode ++ [.plain (.br 0)] = headerCode ++ (siteOf lir a.function).loopTail condition bodyCode := by
    simp [Site.loopTail]
  rw [hassoc]
  exact .block (.loop (.here (.mk (h.withBlocks _) (.header ⟨hheader, hbody⟩ hheader hb))))

end

end StaticChain.Wasm

import StaticChain.Proofs.Effects
import StaticChain.Proofs.Wasm.Assembly
import StaticChain.Proofs.Wasm.Steps

/-!
# Objects and closures in linear memory

The objects of the machine's store have addresses in the memory of generated code, and so have the
closures that were made (`AddressMap`). `Shows` says which value of generated code stands for a value of
the machine. `Placed` is what holds of a store and a memory: what lives lies in the parts of the memory
that are in use, no two things overlap, and what is in a slot can be read at its address. It is preserved
by writing a slot, by allocating an object or a closure, and by releasing objects.
-/

namespace StaticChain.Wasm

open Lir (FunctionId StructId AllocKind)
open Machine (Value Object ObjectId Store)

/-- A closure in memory. -/
structure Cell where
  address : Nat
  function : FunctionId
  context : Option ObjectId

/-- Where the objects of a store are in memory, by their numbers, and the closures that were made. -/
structure AddressMap where
  objects : List Nat
  cells : List Cell

namespace AddressMap

def empty : AddressMap := ⟨[], []⟩

/-- What has an address keeps it. -/
structure Extends (A B : AddressMap) : Prop where
  objects : A.objects <+: B.objects
  cells : A.cells ⊆ B.cells

theorem Extends.refl (A : AddressMap) : A.Extends A := ⟨List.prefix_refl _, List.Subset.refl _⟩

/-- The next object is at the address. -/
def addObject (A : AddressMap) (address : Nat) : AddressMap := { A with objects := A.objects ++ [address] }

def addCell (A : AddressMap) (cell : Cell) : AddressMap := { A with cells := cell :: A.cells }

theorem extends_addObject (A : AddressMap) (address : Nat) : A.Extends (A.addObject address) :=
  ⟨List.prefix_append _ _, List.Subset.refl _⟩

theorem extends_addCell (A : AddressMap) (cell : Cell) : A.Extends (A.addCell cell) :=
  ⟨List.prefix_refl _, List.subset_cons_self _ _⟩

theorem Extends.address {A B : AddressMap} (h : A.Extends B) {i p : Nat} (hp : A.objects[i]? = some p) :
    B.objects[i]? = some p := by
  obtain ⟨more, heq⟩ := h.objects
  rw [← heq, List.getElem?_append_left (List.getElem?_eq_some_iff.1 hp).1, hp]

end AddressMap

/-- What stands for a value of the machine in generated code. -/
inductive Shows (A : AddressMap) : Value → Val → Prop
  | int (x : Int64) : Shows A (.int x) (.i64 x.toBitVec)
  | null : Shows A .null (.i32 0)
  | object {o : ObjectId} {p : Nat} : A.objects[o.index]? = some p →
      Shows A (.object o) (.i32 (BitVec.ofNat 32 p))
  | slot {o : ObjectId} {p : Nat} (k : Nat) : A.objects[o.index]? = some p →
      Shows A (.slot o k) (.i32 (BitVec.ofNat 32 (p + 8 * k)))
  | closure {cell : Cell} : cell ∈ A.cells →
      Shows A (.closure cell.function cell.context) (.i32 (BitVec.ofNat 32 cell.address))

theorem Shows.mono {A B : AddressMap} {v : Value} {x : Val} (h : Shows A v x) (hAB : A.Extends B) :
    Shows B v x := by
  cases h with
  | int x => exact .int x
  | null => exact .null
  | object hp => exact .object (hAB.address hp)
  | slot k hp => exact .slot k (hAB.address hp)
  | closure hcell => exact .closure (hAB.cells hcell)

/-- A context is a 32-bit pointer. -/
theorem Shows.exists_ofContext {A : AddressMap} {c : Option ObjectId} {x : Val}
    (h : Shows A (.ofContext c) x) : ∃ bits, x = .i32 bits := by
  cases c <;> cases h <;> exact ⟨_, rfl⟩

/-! ## Memory -/

/-- Two parts of the memory do not overlap. -/
def Apart (p size p' size' : Nat) : Prop := p + size ≤ p' ∨ p' + size' ≤ p

theorem Apart.symm {p size p' size' : Nat} (h : Apart p size p' size') : Apart p' size' p size := Or.symm h

/-- The bytes that a value takes. -/
def Val.size : Val → Nat
  | .i32 _ => 4
  | .i64 _ => 8

theorem Val.size_le (x : Val) : x.size ≤ 8 := by cases x <;> simp [size]

namespace LinearMemory

variable {mem mem' : LinearMemory}

/-- The value can be read at the address. -/
def Holds (mem : LinearMemory) (address : Nat) : Val → Prop
  | .i32 bits => mem.read 4 address = bits
  | .i64 bits => mem.read 8 address = bits

/-- Writes a value at an address. -/
def put (mem : LinearMemory) (address : Nat) : Val → LinearMemory
  | .i32 bits => mem.write 4 address bits
  | .i64 bits => mem.write 8 address bits

theorem holds_put_self (address : Nat) (x : Val) : (mem.put address x).Holds address x := by
  cases x with
  | i32 bits => exact read_write_self 4 address bits
  | i64 bits => exact read_write_self 8 address bits

theorem Holds.put {address address' : Nat} {x y : Val} (h : mem.Holds address x)
    (hapart : Apart address x.size address' y.size) : (mem.put address' y).Holds address x := by
  cases x with
  | i32 bits => cases y <;> exact (read_write_of_disjoint hapart).trans h
  | i64 bits => cases y <;> exact (read_write_of_disjoint hapart).trans h

theorem Holds.congr {address : Nat} {x : Val} (h : mem.Holds address x) (heq : mem'.bytes = mem.bytes) :
    mem'.Holds address x := by
  have hread : ∀ count, mem'.read count address = mem.read count address :=
    fun count => read_congr fun i _ _ => by rw [heq]
  cases x <;> exact (hread _).trans h

@[simp] theorem size_put (address : Nat) (x : Val) : (mem.put address x).size = mem.size := by cases x <;> rfl

@[simp] theorem pages_put (address : Nat) (x : Val) : (mem.put address x).pages = mem.pages := by
  cases x <;> rfl

@[simp] theorem limit_put (address : Nat) (x : Val) : (mem.put address x).limit = mem.limit := by
  cases x <;> rfl

end LinearMemory

/-! ## What lies where -/

/-- The bytes of an object with so many slots. -/
def objectSize (slots : Nat) : Nat := 8 * max 1 slots

theorem slot_le_objectSize {slots k : Nat} (h : k < slots) : 8 * k + 8 ≤ objectSize slots := by
  unfold objectSize
  omega

/-- A live object and its address. -/
structure LiveAt (A : AddressMap) (s : Store) (o : ObjectId) (object : Object) (p : Nat) : Prop where
  found : s.objects[o.index]? = some object
  live : object.live = true
  address : A.objects[o.index]? = some p

/-- An object is in the part of the memory for its kind. -/
def InPart (heap stack : Nat) : AllocKind → (p size : Nat) → Prop
  | .heap, p, size => 65536 ≤ p ∧ p + size ≤ heap
  | .stack, p, size => stack ≤ p ∧ p + size ≤ 65536

/-- A closure lies in the heap, with the number of its function, one of those that closures are made of,
and its context. -/
structure CellAt (lir : Lir.Module) (A : AddressMap) (mem : LinearMemory) (heap : Nat) (cell : Cell) :
    Prop where
  inPart : 65536 ≤ cell.address ∧ cell.address + 8 ≤ heap
  function : mem.Holds cell.address (.i32 (BitVec.ofNat 32 cell.function.index))
  context : ∃ x, Shows A (.ofContext cell.context) x ∧ mem.Holds (cell.address + 4) x
  target : ∃ f ∈ closureTargets lir, lir.function? cell.function = some f

/-- What is in use of the memory: the two globals tell, and there is so much memory. -/
structure Bounds (inst : Instance) (heap stack : Nat) : Prop where
  globals_eq : inst.globals = [.i32 (BitVec.ofNat 32 heap), .i32 (BitVec.ofNat 32 stack)]
  limit_eq : inst.memory.limit = some 1024
  pages_le : inst.memory.pages ≤ 1024
  heap_ge : 65536 ≤ heap
  heap_le : heap ≤ inst.memory.size
  stack_ge : 1024 ≤ stack
  stack_le : stack ≤ 65536

/-- Addresses have 32 bits. -/
theorem Bounds.heap_lt {inst : Instance} {heap stack : Nat} (h : Bounds inst heap stack) :
    heap ≤ 67108864 := by
  have := h.heap_le
  have := h.pages_le
  unfold LinearMemory.size at *
  omega

/-- The store is in the memory. -/
structure Placed (lir : Lir.Module) (A : AddressMap) (s : Store) (inst : Instance) (heap stack : Nat) :
    Prop where
  bounds : Bounds inst heap stack
  length_eq : A.objects.length = s.objects.size
  inPart : ∀ o object p, LiveAt A s o object p →
    InPart heap stack object.kind p (objectSize object.slots.size)
  apart : ∀ o o' object object' p p', LiveAt A s o object p → LiveAt A s o' object' p' → o ≠ o' →
    Apart p (objectSize object.slots.size) p' (objectSize object'.slots.size)
  slot : ∀ o object p k v, LiveAt A s o object p → object.slots[k]? = some (some v) →
    ∃ x, Shows A v x ∧ inst.memory.Holds (p + 8 * k) x
  cell : ∀ cell ∈ A.cells, CellAt lir A inst.memory heap cell
  cell_apart : ∀ cell ∈ A.cells, ∀ o object p, LiveAt A s o object p →
    Apart cell.address 8 p (objectSize object.slots.size)

/-- A closure stays where it is and keeps what is in it. -/
theorem CellAt.mono {lir : Lir.Module} {A B : AddressMap} {mem mem' : LinearMemory} {heap heap' : Nat}
    {cell : Cell} (h : CellAt lir A mem heap cell) (hAB : A.Extends B) (hheap : heap ≤ heap')
    (hmem : ∀ address x, cell.address ≤ address → address + x.size ≤ cell.address + 8 →
      mem.Holds address x → mem'.Holds address x) : CellAt lir B mem' heap' cell := by
  obtain ⟨hpart, hfunction, ⟨x, hx, hcontext⟩, htarget⟩ := h
  obtain ⟨bits, rfl⟩ := hx.exists_ofContext
  refine ⟨⟨hpart.1, Nat.le_trans hpart.2 hheap⟩, hmem _ _ (Nat.le_refl _) ?_ hfunction,
    ⟨_, hx.mono hAB, hmem _ _ (by omega) ?_ hcontext⟩, htarget⟩
  · simp [Val.size]
  · simp [Val.size]

theorem InPart.mono {heap heap' stack stack' : Nat} {kind : AllocKind} {p size : Nat}
    (h : InPart heap stack kind p size) (hheap : heap ≤ heap') (hstack : stack' ≤ stack) :
    InPart heap' stack' kind p size := by
  cases kind with
  | heap => exact ⟨h.1, Nat.le_trans h.2 hheap⟩
  | stack => exact ⟨Nat.le_trans hstack h.1, h.2⟩

namespace Placed

variable {lir : Lir.Module} {A : AddressMap} {s : Store} {inst inst' : Instance} {heap heap' stack stack' : Nat}
  {o o' : ObjectId} {object object' : Object} {p p' : Nat}

/-- A live object ends where the memory ends, or before. -/
theorem le_size (h : Placed lir A s inst heap stack) (hat : LiveAt A s o object p) :
    p + objectSize object.slots.size ≤ inst.memory.size := by
  have hpart := h.inPart _ _ _ hat
  have hheap := h.bounds.heap_le
  have hge := h.bounds.heap_ge
  cases hk : object.kind <;> simp only [hk, InPart] at hpart <;> omega

/-- A slot of a live object is in the memory. -/
theorem slot_lt (h : Placed lir A s inst heap stack) (hat : LiveAt A s o object p) {k : Nat}
    (hk : k < object.slots.size) : p + 8 * k < UInt32.size ∧ p + 8 * k + 8 ≤ inst.memory.size := by
  have hsize := h.le_size hat
  have hend := slot_le_objectSize hk
  have hpages := h.bounds.pages_le
  simp only [LinearMemory.size, UInt32.size] at hsize ⊢
  omega

/-! ### Writing -/

/-- An object that lives after a write lived before, with other contents in the written slot only. -/
theorem live_of_set {k : Nat} {v : Value} (hat : LiveAt A (s.set o k v) o' object' p') :
    ∃ old, LiveAt A s o' old p' ∧ object'.kind = old.kind ∧ object'.slots.size = old.slots.size ∧
      ∀ (j : Nat) w, object'.slots[j]? = some (some w) →
        (o' = o ∧ j = k ∧ w = v) ∨ ((o' ≠ o ∨ j ≠ k) ∧ old.slots[j]? = some (some w)) := by
  obtain ⟨hfound, hlive, haddress⟩ := hat
  rw [Store.get?_set] at hfound
  split at hfound
  · rename_i heq
    have ho : o' = o := congrArg ObjectId.mk heq.symm
    obtain ⟨old, hold, rfl⟩ := Option.map_eq_some_iff.1 hfound
    refine ⟨old, ⟨hold, hlive, haddress⟩, rfl, by simp, fun j w hw => ?_⟩
    simp only [Array.getElem?_setIfInBounds] at hw
    split at hw
    · rename_i hkj
      split at hw
      · exact .inl ⟨ho, hkj.symm, by simpa using hw.symm⟩
      · simp at hw
    · exact .inr ⟨.inr (Ne.symm ‹_›), hw⟩
  · rename_i hne
    exact ⟨object', ⟨hfound, hlive, haddress⟩, rfl, rfl,
      fun j w hw => .inr ⟨.inl (by rintro rfl; exact hne rfl), hw⟩⟩

/-- A slot of a live object is written. -/
theorem set (h : Placed lir A s inst heap stack) (hat : LiveAt A s o object p) {k : Nat}
    (hk : k < object.slots.size) {v : Value} {x : Val} (hx : Shows A v x) :
    Placed lir A (s.set o k v) { inst with memory := inst.memory.put (p + 8 * k) x } heap stack := by
  have hsize := x.size_le
  have hend := slot_le_objectSize hk
  have hb := h.bounds
  refine ⟨⟨hb.globals_eq, by simp [hb.limit_eq], by simp [hb.pages_le], hb.heap_ge, by simp [hb.heap_le],
    hb.stack_ge, hb.stack_le⟩, ?_, ?_, ?_, ?_, ?_, ?_⟩
  · simp [h.length_eq, Store.set]
  · intro o' object' p' hat'
    obtain ⟨old, hold, hkind, hslots, -⟩ := live_of_set hat'
    rw [hkind, hslots]
    exact h.inPart _ _ _ hold
  · intro o₁ o₂ object₁ object₂ p₁ p₂ hat₁ hat₂ hne
    obtain ⟨old₁, hold₁, -, hslots₁, -⟩ := live_of_set hat₁
    obtain ⟨old₂, hold₂, -, hslots₂, -⟩ := live_of_set hat₂
    rw [hslots₁, hslots₂]
    exact h.apart _ _ _ _ _ _ hold₁ hold₂ hne
  · intro o' object' p' j w hat' hw
    obtain ⟨old, hold, -, -, hold_slot⟩ := live_of_set hat'
    rcases hold_slot j w hw with ⟨rfl, rfl, rfl⟩ | ⟨hne, hw⟩
    · have heq := hold.address
      rw [hat.address] at heq
      cases heq
      exact ⟨x, hx, LinearMemory.holds_put_self _ _⟩
    · obtain ⟨y, hy, hholds⟩ := h.slot _ _ _ _ _ hold hw
      refine ⟨y, hy, hholds.put ?_⟩
      have hysize := y.size_le
      by_cases ho : o' = o
      · -- Another slot of the same object.
        subst ho
        have heq := hold.address
        rw [hat.address] at heq
        cases heq
        have hjk : j ≠ k := hne.resolve_left (fun h => h rfl)
        unfold Apart
        omega
      · have hjend := slot_le_objectSize (Array.getElem?_eq_some_iff.1 hw).1
        have := h.apart _ _ _ _ _ _ hold hat ho
        unfold Apart at *
        omega
  · intro cell hcell
    have hapart := h.cell_apart cell hcell _ _ _ hat
    refine (h.cell cell hcell).mono (.refl A) (Nat.le_refl _) fun address y hle hend hholds => hholds.put ?_
    unfold Apart at *
    omega
  · intro cell hcell o' object' p' hat'
    obtain ⟨old, hold, -, hslots, -⟩ := live_of_set hat'
    rw [hslots]
    exact h.cell_apart _ hcell _ _ _ hold

/-! ### Allocating -/

/-- An object that lives after an allocation is the new one, without any slot set, or lived before. -/
theorem live_of_allocate (hlen : A.objects.length = s.objects.size) {struct : StructId} {kind : AllocKind}
    {slots q : Nat} (hat : LiveAt (A.addObject q) (s.allocate struct kind slots) o object p) :
    (o = s.next ∧ p = q ∧ object = ⟨struct, kind, Array.replicate slots none, true⟩) ∨
      LiveAt A s o object p := by
  obtain ⟨hfound, hlive, haddress⟩ := hat
  rw [Store.get?_allocate] at hfound
  split at hfound
  · rename_i heq
    cases hfound
    refine .inl ⟨congrArg ObjectId.mk heq, ?_, rfl⟩
    simp [AddressMap.addObject, heq, ← hlen] at haddress
    exact haddress.symm
  · rename_i hne
    refine .inr ⟨hfound, hlive, ?_⟩
    have hlt : o.index < s.objects.size := (Array.getElem?_eq_some_iff.1 hfound).1
    simpa [AddressMap.addObject, List.getElem?_append_left (hlen ▸ hlt)] using haddress

/-- What is beyond the heap or below the stack overlaps with nothing. -/
theorem apart_of_between (h : Placed lir A s inst heap stack) (hat : LiveAt A s o object p) {q size : Nat}
    (hbetween : heap ≤ q ∨ q + size ≤ stack) : Apart q size p (objectSize object.slots.size) := by
  have hpart := h.inPart _ _ _ hat
  have hge := h.bounds.heap_ge
  have hle := h.bounds.stack_le
  unfold Apart
  cases hk : object.kind <;> simp only [hk, InPart] at hpart <;> omega

/-- An object is allocated beyond the heap or below the stack. -/
theorem allocate (h : Placed lir A s inst heap stack) (hb : Bounds inst' heap' stack')
    (hbytes : inst'.memory.bytes = inst.memory.bytes) (hheap : heap ≤ heap') (hstack : stack' ≤ stack)
    (struct : StructId) {kind : AllocKind} {slots q : Nat} (hnew : InPart heap' stack' kind q (objectSize slots))
    (hbetween : heap ≤ q ∨ q + objectSize slots ≤ stack) :
    Placed lir (A.addObject q) (s.allocate struct kind slots) inst' heap' stack' := by
  have hext := A.extends_addObject q
  refine ⟨hb, by simp [AddressMap.addObject, Store.allocate, h.length_eq], ?_, ?_, ?_, ?_, ?_⟩
  · intro o object p hat
    rcases live_of_allocate h.length_eq hat with ⟨rfl, rfl, rfl⟩ | hat
    · simpa using hnew
    · exact (h.inPart _ _ _ hat).mono hheap hstack
  · intro o₁ o₂ object₁ object₂ p₁ p₂ hat₁ hat₂ hne
    rcases live_of_allocate h.length_eq hat₁ with ⟨rfl, rfl, rfl⟩ | hold₁ <;>
      rcases live_of_allocate h.length_eq hat₂ with ⟨rfl, rfl, rfl⟩ | hold₂
    · exact absurd rfl hne
    · simpa using h.apart_of_between hold₂ hbetween
    · simpa using (h.apart_of_between hold₁ hbetween).symm
    · exact h.apart _ _ _ _ _ _ hold₁ hold₂ hne
  · intro o object p k v hat hv
    rcases live_of_allocate h.length_eq hat with ⟨rfl, rfl, rfl⟩ | hat
    · simp only [Array.getElem?_replicate] at hv
      split at hv <;> simp at hv
    · obtain ⟨x, hx, hholds⟩ := h.slot _ _ _ _ _ hat hv
      exact ⟨x, hx.mono hext, hholds.congr hbytes⟩
  · intro cell hcell
    exact (h.cell cell hcell).mono hext hheap fun _ _ _ _ hholds => hholds.congr hbytes
  · intro cell hcell o object p hat
    rcases live_of_allocate h.length_eq hat with ⟨rfl, rfl, rfl⟩ | hat
    · have hpart := (h.cell cell hcell).inPart
      have := h.bounds.stack_le
      simp only [Array.size_replicate, Apart]
      omega
    · exact h.cell_apart cell hcell _ _ _ hat

/-- A closure is allocated beyond the heap. -/
theorem addCell (h : Placed lir A s inst heap stack) (hb : Bounds inst' heap' stack) {cell : Cell}
    (hheap : heap ≤ heap') (haddress : heap ≤ cell.address)
    (hkeep : ∀ address x, address + x.size ≤ heap → inst.memory.Holds address x →
      inst'.memory.Holds address x)
    (hcell : CellAt lir A inst'.memory heap' cell) :
    Placed lir (A.addCell cell) s inst' heap' stack := by
  have hext := A.extends_addCell cell
  have hold : ∀ {o object p}, LiveAt (A.addCell cell) s o object p → LiveAt A s o object p :=
    fun hat => ⟨hat.found, hat.live, hat.address⟩
  refine ⟨hb, h.length_eq, ?_, ?_, ?_, ?_, ?_⟩
  · exact fun o object p hat => (h.inPart o object p (hold hat)).mono hheap (Nat.le_refl _)
  · exact fun o o' object object' p p' hat hat' => h.apart o o' object object' p p' (hold hat) (hold hat')
  · intro o object p k v hat hv
    have hat := hold hat
    obtain ⟨x, hx, hholds⟩ := h.slot o object p k v hat hv
    refine ⟨x, hx.mono hext, hkeep _ _ ?_ hholds⟩
    have hpart := h.inPart o object p hat
    have hend := slot_le_objectSize (Array.getElem?_eq_some_iff.1 hv).1
    have hsize := x.size_le
    have hge := h.bounds.heap_ge
    cases hk : object.kind <;> simp only [hk, InPart] at hpart <;> omega
  · intro cell' hmem
    rcases List.mem_cons.1 hmem with rfl | hmem
    · exact hcell.mono hext (Nat.le_refl _) fun _ _ _ _ hholds => hholds
    · have hpart := (h.cell cell' hmem).inPart
      exact (h.cell cell' hmem).mono hext hheap fun address x _ hend hholds =>
        hkeep _ _ (by omega) hholds
  · intro cell' hmem o object p hat
    rcases List.mem_cons.1 hmem with rfl | hmem
    · exact h.apart_of_between (hold hat) (.inl haddress)
    · exact h.cell_apart cell' hmem o object p (hold hat)

/-! ### Releasing -/

/-- Objects are released, and the stack shrinks to what is left of it. -/
theorem release (h : Placed lir A s inst heap stack) (hb : Bounds inst' heap stack')
    (hmemory : inst'.memory = inst.memory) (ids : List ObjectId)
    (hleft : ∀ o object p, LiveAt A s o object p → o ∉ ids → object.kind = .stack → stack' ≤ p) :
    Placed lir A (s.releaseAll ids) inst' heap stack' := by
  have hlive : ∀ {o object p}, LiveAt A (s.releaseAll ids) o object p → LiveAt A s o object p ∧ o ∉ ids := by
    rintro o object p ⟨hfound, hlive, haddress⟩
    rw [Store.get?_releaseAll] at hfound
    split at hfound
    · obtain ⟨old, -, rfl⟩ := Option.map_eq_some_iff.1 hfound
      cases hlive
    · exact ⟨⟨hfound, hlive, haddress⟩, ‹_›⟩
  refine ⟨hb, ?_, ?_, ?_, ?_, ?_, ?_⟩
  · rw [h.length_eq, Store.size_releaseAll]
  · intro o object p hat
    obtain ⟨hat, hnot⟩ := hlive hat
    have hpart := h.inPart o object p hat
    have hstack := hleft o object p hat hnot
    cases hk : object.kind <;> simp only [hk, InPart] at hpart ⊢
    · exact ⟨hstack hk, hpart.2⟩
    · exact hpart
  · exact fun o o' object object' p p' hat hat' => h.apart o o' object object' p p' (hlive hat).1 (hlive hat').1
  · rw [hmemory]
    exact fun o object p k v hat => h.slot o object p k v (hlive hat).1
  · rw [hmemory]
    exact h.cell
  · exact fun cell hcell o object p hat => h.cell_apart cell hcell o object p (hlive hat).1

end Placed

end StaticChain.Wasm

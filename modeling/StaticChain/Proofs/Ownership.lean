import StaticChain.Proofs.Effects
import StaticChain.Proofs.Lockstep
import StaticChain.Proofs.OpenBlocks

/-!
# Who leads to a frame on the stack

A frame on the stack is released when the activation that allocated it returns, so nothing that lives
longer may lead to it. A value is `Lasting` when it leads to the heap, if anywhere. Whatever is kept is
lasting: the values of expressions, the slots of objects on the heap and the contexts of closures. Only
contexts may lead to a frame on the stack, and then to one of the same activation or of one that waits
for it (`Held`).

`Owned` is the invariant of a running call. It is preserved by every step (`Owned.step`), and in a state
that has it no value leads to a released object (`Owned.live`).
-/

namespace StaticChain

open Lir (ValueId LocalId FunctionId StructId AllocKind Inst Ty)

namespace Machine

/-- The object is on the heap. -/
def Store.OnHeapAt (s : Store) (o : ObjectId) : Prop :=
  ∃ object, s.objects[o.index]? = some object ∧ object.kind = .heap

/-- The value leads to the heap, if anywhere. -/
def Value.Lasting (s : Store) : Value → Prop
  | .int _ => True
  | .null => True
  | .object o => s.OnHeapAt o
  | .slot _ _ => False
  | .closure _ none => True
  | .closure _ (some o) => s.OnHeapAt o

/-- Objects on the heap and within reach stay what they are. -/
def Store.Keeps (reach : List ObjectId) (s s' : Store) : Prop :=
  ∀ (o : ObjectId) (object : Object), s.objects[o.index]? = some object →
    (object.kind = .heap ∨ o ∈ reach) → ∃ object', s'.objects[o.index]? = some object' ∧
      object'.kind = object.kind ∧ object'.live = object.live ∧ object'.struct = object.struct

end Machine

open Machine

/-- The frame of a function, on the stack and within reach. -/
structure FrameAt (n : Nesting) (s : Store) (reach : List ObjectId) (owner : DeclId) (o : ObjectId) :
    Prop where
  mem : o ∈ reach
  plan : n.plan.kind? owner = some .stack
  object : ∃ object l, s.objects[o.index]? = some object ∧ object.kind = .stack ∧ object.live = true ∧
    n.layouts.layout? owner = some l ∧ object.struct = l.struct

/-- The value may be in the role: it is lasting, or a context on the stack that is within reach. -/
def Held (n : Nesting) (s : Store) (reach : List ObjectId) : Role → Value → Prop
  | .value _, v => v.Lasting s
  | .context carrier, v => v.Lasting s ∨
    ∃ owner o, carrier = some owner ∧ v = .object o ∧ FrameAt n s reach owner o
  | .address owner slot, v => ∃ o, v = .slot o slot ∧ (s.OnHeapAt o ∨ FrameAt n s reach owner o)

/-- What is in the slots of a frame may be there. -/
def FrameOk (n : Nesting) (s : Store) (reach : List ObjectId) (o : ObjectId) : Prop :=
  ∃ owner, FrameAt n s reach owner o ∧ ∀ object k v role, s.objects[o.index]? = some object →
    object.slots[k]? = some (some v) → n.slotRole? owner k = some role → Held n s reach role v

/-- Objects on the heap are live and hold lasting values. -/
def HeapOk (s : Store) : Prop :=
  ∀ (o : ObjectId) (object : Object), s.objects[o.index]? = some object → object.kind = .heap →
    object.live = true ∧ ∀ (k : Nat) (v : Value), object.slots[k]? = some (some v) → v.Lasting s

/-- The values and locals of an activation may be in their roles. -/
structure ValuesHeld (n : Nesting) (s : Store) (reach : List ObjectId) (Γ : Roles) (a : Activation) :
    Prop where
  value : ∀ r v, a.value r = .ok v → Held n s reach (Γ.ofValue r) v
  «local» : ∀ x v, a.local x = .ok v → Held n s reach (Γ.ofLocal x) v

/-- An activation that waits for a result. -/
def Waits (n : Nesting) (s : Store) (reach : List ObjectId) (dest : Option ValueId) (a : Activation) :
    Prop :=
  ∃ Γ ret, ValuesHeld n s reach Γ a ∧ BlocksOk n False ret Γ a.blocks ∧
    ∀ d, dest = some d → ∃ ty, Γ.ofValue d = .value ty

/-- The activations that wait, each with the frames it owns. -/
def WaitingOk (n : Nesting) (s : Store) : Option ValueId → List Activation → Prop
  | _, [] => True
  | dest, a :: rest => Waits n s (reachOf (a :: rest)) dest a ∧
    (∀ o ∈ a.owned, FrameOk n s (reachOf (a :: rest)) o) ∧ WaitingOk n s a.dest rest

/-- The carrier whose link is stored is the activation's own, or on the heap. -/
def OwnFresh (s : Store) (a : Activation) : StructId → AllocKind → ObjectId → Prop
  | _, .heap, o => s.OnHeapAt o
  | _, .stack, o => o ∈ a.owned

/-- What holds of a running call, apart from where the active activation is in its code. -/
structure OwnedBy (n : Nesting) (s : Store) (waiting : List Activation) (Γ : Roles) (a : Activation) :
    Prop where
  heap : HeapOk s
  nodup : (reachOf (a :: waiting)).Nodup
  values : ValuesHeld n s (reachOf (a :: waiting)) Γ a
  frames : ∀ o ∈ a.owned, FrameOk n s (reachOf (a :: waiting)) o
  waiting : WaitingOk n s a.dest waiting

/-- What holds of a running call. -/
def Owned (n : Nesting) (s : State) : Prop :=
  ∃ Γ ret, OwnedBy n s.store s.callers.waiting Γ s.active ∧
    Doing n False ret Γ s.active True (OwnFresh s.store s.active) s.active.blocks

/-! ## Stores that keep what matters -/

section

variable {n : Nesting} {s s' : Store} {reach reach' : List ObjectId}

theorem Machine.Store.Keeps.mono (h : Store.Keeps reach s s') (hr : reach' ⊆ reach) :
    Store.Keeps reach' s s' := by
  intro o object ho hor
  exact h o object ho (hor.imp id fun hmem => hr hmem)

theorem Machine.Store.OnHeapAt.keep {o : ObjectId} (h : s.OnHeapAt o) (hk : Store.Keeps reach s s') :
    s'.OnHeapAt o := by
  obtain ⟨object, ho, hkind⟩ := h
  obtain ⟨object', ho', hkind', -⟩ := hk o object ho (.inl hkind)
  exact ⟨object', ho', hkind'.trans hkind⟩

theorem Machine.Value.Lasting.keep {v : Value} (h : v.Lasting s) (hk : Store.Keeps reach s s') :
    v.Lasting s' := by
  cases v with
  | object o => exact Store.OnHeapAt.keep h hk
  | closure f context =>
    cases context with
    | none => trivial
    | some o => exact Store.OnHeapAt.keep h hk
  | _ => exact h

theorem FrameAt.keep {owner : DeclId} {o : ObjectId} (h : FrameAt n s reach owner o)
    (hk : Store.Keeps reach s s') : FrameAt n s' reach owner o := by
  obtain ⟨hmem, hplan, object, l, ho, hkind, hlive, hl, hstruct⟩ := h
  obtain ⟨object', ho', hkind', hlive', hstruct'⟩ := hk o object ho (.inr hmem)
  exact ⟨hmem, hplan, object', l, ho', hkind'.trans hkind, hlive'.trans hlive, hl,
    hstruct'.trans hstruct⟩

theorem FrameAt.mono {owner : DeclId} {o : ObjectId} (h : FrameAt n s reach owner o)
    (hr : reach ⊆ reach') : FrameAt n s reach' owner o :=
  ⟨hr h.mem, h.plan, h.object⟩

theorem Held.keep {role : Role} {v : Value} (h : Held n s reach role v)
    (hk : Store.Keeps reach s s') : Held n s' reach role v := by
  cases role with
  | value ty => exact Value.Lasting.keep h hk
  | context carrier =>
    rcases h with h | ⟨owner, o, hc, hv, hf⟩
    · exact .inl (h.keep hk)
    · exact .inr ⟨owner, o, hc, hv, hf.keep hk⟩
  | address owner slot =>
    obtain ⟨o, hv, h | h⟩ := h
    · exact ⟨o, hv, .inl (h.keep hk)⟩
    · exact ⟨o, hv, .inr (h.keep hk)⟩

theorem Held.mono {role : Role} {v : Value} (h : Held n s reach role v) (hr : reach ⊆ reach') :
    Held n s reach' role v := by
  cases role with
  | value ty => exact h
  | context carrier =>
    rcases h with h | ⟨owner, o, hc, hv, hf⟩
    · exact .inl h
    · exact .inr ⟨owner, o, hc, hv, hf.mono hr⟩
  | address owner slot =>
    obtain ⟨o, hv, h | h⟩ := h
    · exact ⟨o, hv, .inl h⟩
    · exact ⟨o, hv, .inr (h.mono hr)⟩

/-- A lasting value may be in every role but that of an address. -/
theorem Machine.Value.Lasting.held {role : Role} {v : Value} (h : v.Lasting s)
    (hr : ¬role.IsAddress) : Held n s reach role v := by
  cases role with
  | value ty => exact h
  | context carrier => exact .inl h
  | address owner slot => exact absurd trivial hr

theorem ValuesHeld.keep {Γ : Roles} {a : Activation} (h : ValuesHeld n s reach Γ a)
    (hk : Store.Keeps reach s s') : ValuesHeld n s' reach Γ a :=
  ⟨fun r v hv => (h.value r v hv).keep hk, fun x v hv => (h.local x v hv).keep hk⟩

theorem ValuesHeld.mono {Γ : Roles} {a : Activation} (h : ValuesHeld n s reach Γ a)
    (hr : reach ⊆ reach') : ValuesHeld n s reach' Γ a :=
  ⟨fun r v hv => (h.value r v hv).mono hr, fun x v hv => (h.local x v hv).mono hr⟩

/-- A frame stays good if what is written into it may be there. -/
theorem FrameOk.keep {o : ObjectId} (h : FrameOk n s reach o) (hk : Store.Keeps reach s s')
    (hslots : ∀ (object' : Object) (k : Nat) (v : Value), s'.objects[o.index]? = some object' →
      object'.slots[k]? = some (some v) →
      (∃ object, s.objects[o.index]? = some object ∧ object.slots[k]? = some (some v)) ∨
        ∀ owner role, FrameAt n s' reach owner o → n.slotRole? owner k = some role →
          Held n s' reach role v) :
    FrameOk n s' reach o := by
  obtain ⟨owner, hat, hheld⟩ := h
  refine ⟨owner, hat.keep hk, ?_⟩
  intro object' k v role ho' hv hrole
  rcases hslots object' k v ho' hv with ⟨object, ho, hv⟩ | hnew
  · exact (hheld object k v role ho hv hrole).keep hk
  · exact hnew owner role (hat.keep hk) hrole

theorem FrameOk.mono {o : ObjectId} (h : FrameOk n s reach o) (hr : reach ⊆ reach') :
    FrameOk n s reach' o := by
  obtain ⟨owner, hat, hheld⟩ := h
  exact ⟨owner, hat.mono hr, fun object k v role ho hv hrole =>
    (hheld object k v role ho hv hrole).mono hr⟩

theorem not_isAddress_of_slotRole? {owner : DeclId} {slot : Nat} {role : Role}
    (h : n.slotRole? owner slot = some role) : ¬role.IsAddress := by
  unfold Nesting.slotRole? at h
  obtain ⟨l, -, h⟩ := Option.bind_eq_some_iff.1 h
  obtain ⟨s, -, rfl⟩ := Option.map_eq_some_iff.1 h
  split <;> simp [Role.IsAddress]

/-- Waiting activations stay good if lasting values only are written into their frames. -/
theorem WaitingOk.keep {dest : Option ValueId} {activations : List Activation}
    (h : WaitingOk n s dest activations) (hk : Store.Keeps (reachOf activations) s s')
    (hslots : ∀ o ∈ reachOf activations, ∀ (object' : Object) (k : Nat) (v : Value),
      s'.objects[o.index]? = some object' →
      object'.slots[k]? = some (some v) →
      (∃ object, s.objects[o.index]? = some object ∧ object.slots[k]? = some (some v)) ∨
        v.Lasting s') :
    WaitingOk n s' dest activations := by
  induction activations generalizing dest with
  | nil => trivial
  | cons a rest ih =>
    obtain ⟨⟨Γ, ret, hvalues, hblocks, hdest⟩, hframes, hrest⟩ := h
    refine ⟨⟨Γ, ret, hvalues.keep hk, hblocks, hdest⟩, ?_, ih hrest (hk.mono ?_) ?_⟩
    · intro o ho
      refine (hframes o ho).keep hk fun object' k v ho' hv => ?_
      refine (hslots o (by simp [ho]) object' k v ho' hv).imp id fun hlasting owner role _ hrole => ?_
      exact hlasting.held (not_isAddress_of_slotRole? hrole)
    · intro o ho
      simp [ho]
    · intro o ho
      exact hslots o (by simp [ho])

/-- A frame of a waiting activation holds what may be there. -/
theorem WaitingOk.frameOk_of_mem {dest : Option ValueId} {activations : List Activation}
    (h : WaitingOk n s dest activations) {o : ObjectId} (ho : o ∈ reachOf activations) :
    FrameOk n s (reachOf activations) o := by
  induction activations generalizing dest with
  | nil => simp [reachOf] at ho
  | cons a rest ih =>
    obtain ⟨-, hframes, hrest⟩ := h
    rw [reachOf_cons, List.mem_append] at ho
    rcases ho with ho | ho
    · exact hframes o ho
    · exact (ih hrest ho).mono (by simp)

end

/-! ## What one step does -/

namespace OwnedBy

variable {n : Nesting} {s : Store} {waiting : List Activation} {Γ : Roles} {a : Activation}

theorem withBlocks (h : OwnedBy n s waiting Γ a) (blocks : List Block) :
    OwnedBy n s waiting Γ { a with blocks } :=
  ⟨h.heap, h.nodup, ⟨h.values.value, h.values.local⟩, h.frames, h.waiting⟩

theorem define (h : OwnedBy n s waiting Γ a) {dest : ValueId} {v : Value}
    (hv : Held n s (reachOf (a :: waiting)) (Γ.ofValue dest) v) :
    OwnedBy n s waiting Γ (a.define dest v) := by
  refine ⟨h.heap, h.nodup, ⟨?_, h.values.local⟩, h.frames, h.waiting⟩
  intro r w hw
  rcases Activation.value_define hw with ⟨rfl, rfl⟩ | hw
  · exact hv
  · exact h.values.value r w hw

theorem assign (h : OwnedBy n s waiting Γ a) {target : LocalId} {v : Value}
    (hv : Held n s (reachOf (a :: waiting)) (Γ.ofLocal target) v) :
    OwnedBy n s waiting Γ (a.assign target v) := by
  refine ⟨h.heap, h.nodup, ⟨h.values.value, ?_⟩, h.frames, h.waiting⟩
  intro x w hw
  rcases Activation.local_assign hw with ⟨rfl, rfl⟩ | hw
  · exact hv
  · exact h.values.local x w hw

/-- A frame within reach is the frame of one function, and its slots hold what may be there. -/
theorem frameOk_of_mem (h : OwnedBy n s waiting Γ a) {o : ObjectId} (ho : o ∈ reachOf (a :: waiting)) :
    FrameOk n s (reachOf (a :: waiting)) o := by
  rw [reachOf_cons, List.mem_append] at ho
  rcases ho with ho | ho
  · exact h.frames o ho
  · exact (h.waiting.frameOk_of_mem ho).mono (by simp)

/-- Objects within reach were allocated, on the stack. -/
theorem frameAt_of_mem (h : OwnedBy n s waiting Γ a) {o : ObjectId}
    (ho : o ∈ reachOf (a :: waiting)) :
    ∃ owner, FrameAt n s (reachOf (a :: waiting)) owner o := by
  obtain ⟨owner, hat, -⟩ := h.frameOk_of_mem ho
  exact ⟨owner, hat⟩

/-- A value in the role of a context that is not on the stack is lasting. -/
theorem lasting_of_onHeap {reach : List ObjectId} {role : Role} {v : Value}
    (hv : Held n s reach role v) (hr : role.OnHeap n) : v.Lasting s := by
  cases role with
  | value ty => exact hv
  | context carrier =>
    rcases hv with hv | ⟨owner, o, rfl, rfl, hat⟩
    · exact hv
    · exact absurd hat.plan (hr owner rfl)
  | address owner slot => exact absurd hr id

end OwnedBy

/-- The plan is about frames of functions only. -/
theorem Nesting.Built.isFunction_of_plan {n : Nesting} {policy : FramePolicy} (hn : n.Built policy)
    {owner : DeclId} {kind : AllocKind} (h : n.plan.kind? owner = some kind) :
    n.program.isFunction owner = true := by
  rw [hn.plan_eq, FramePlan.kind?_of] at h
  obtain ⟨owner', hfind, -⟩ := Option.map_eq_some_iff.1 h
  have heq : owner' = owner := by simpa using List.find?_some hfind
  have hmem := List.mem_of_find?_eq_some hfind
  rw [List.mem_eraseDups, List.mem_filter] at hmem
  exact heq ▸ hmem.2

/-- What fits a role may be in it. -/
theorem Held.of_fits {n : Nesting} {policy : FramePolicy} (hn : n.Built policy) {s : Store}
    {reach : List ObjectId} {role role' : Role} {v : Value} (h : Held n s reach role v)
    (hf : role.Fits n False role') : Held n s reach role' v := by
  rcases hf with rfl | ⟨hvalue, haddr, -⟩
  · exact h
  refine Value.Lasting.held ?_ haddr
  cases role with
  | value ty => exact h
  | context carrier =>
    obtain ⟨aggregate, rfl, hagg⟩ := hvalue
    refine OwnedBy.lasting_of_onHeap h ?_
    rintro owner ⟨⟩ hplan
    obtain ⟨function, hf⟩ := Program.isFunction_iff.1 (hn.isFunction_of_plan hplan)
    rw [Program.isAggregate_of_function hf] at hagg
    cases hagg
  | address owner slot => exact absurd hvalue id

/-! ### Allocations -/

section

variable {s : Store} {reach : List ObjectId} (struct : StructId) (kind : AllocKind) (slots : Nat)

theorem keeps_allocate : Store.Keeps reach s (s.allocate struct kind slots) := by
  intro o object ho _
  have hlt : o.index < s.objects.size := (Array.getElem?_eq_some_iff.1 ho).1
  refine ⟨object, ?_, rfl, rfl, rfl⟩
  rw [Store.get?_allocate, if_neg (by omega), ho]

theorem HeapOk.allocate (h : HeapOk s) : HeapOk (s.allocate struct kind slots) := by
  intro o object ho hkind
  constructor
  · rw [Store.get?_allocate] at ho
    split at ho
    · cases ho
      rfl
    · exact (h o object ho hkind).1
  · intro k v hv
    have hold := Store.slot_of_allocate ho hv
    exact ((h o object hold hkind).2 k v hv).keep
      (keeps_allocate struct kind slots : Store.Keeps [] s _)

end

namespace OwnedBy

variable {n : Nesting} {s : Store} {waiting : List Activation} {Γ : Roles} {a : Activation}
  {owner : DeclId} {l : Layout}

theorem waiting_allocate (h : OwnedBy n s waiting Γ a) (struct : StructId) (kind : AllocKind)
    (slots : Nat) : WaitingOk n (s.allocate struct kind slots) a.dest waiting :=
  h.waiting.keep (keeps_allocate struct kind slots) fun _ _ object' _ _ ho hv =>
    .inl ⟨object', Store.slot_of_allocate ho hv, hv⟩

/-- An object on the heap is allocated. -/
theorem allocateHeap (h : OwnedBy n s waiting Γ a) {dest : ValueId} (struct : StructId) (slots : Nat)
    (hdest : ¬(Γ.ofValue dest).IsAddress) :
    OwnedBy n (s.allocate struct .heap slots) waiting Γ (a.define dest (.object s.next)) := by
  have hnew : (s.allocate struct .heap slots).OnHeapAt s.next := ⟨_, Store.get?_next struct .heap slots, rfl⟩
  have hold : OwnedBy n (s.allocate struct .heap slots) waiting Γ a := by
    refine ⟨h.heap.allocate _ _ _, h.nodup, h.values.keep (keeps_allocate _ _ _), ?_,
      h.waiting_allocate _ _ _⟩
    intro o ho
    exact (h.frames o ho).keep (keeps_allocate _ _ _) fun object' k v ho' hv =>
      .inl ⟨object', Store.slot_of_allocate ho' hv, hv⟩
  exact hold.define (Value.Lasting.held (v := .object s.next) hnew hdest)

/-- A frame on the stack is allocated; the activation owns it. -/
theorem allocateStack (h : OwnedBy n s waiting Γ a) {dest : ValueId} (slots : Nat)
    (hl : n.layouts.layout? owner = some l) (hplan : n.plan.kind? owner = some .stack)
    (hdest : Γ.ofValue dest = .context (some owner)) :
    OwnedBy n (s.allocate l.struct .stack slots) waiting Γ
      { a.define dest (.object s.next) with owned := s.next :: a.owned } := by
  have hsub : reachOf (a :: waiting) ⊆ s.next :: reachOf (a :: waiting) := by simp
  have hreach : reachOf ({ a with owned := s.next :: a.owned } :: waiting) =
      s.next :: reachOf (a :: waiting) := by simp
  have hnew : FrameAt n (s.allocate l.struct .stack slots) (s.next :: reachOf (a :: waiting)) owner
      s.next := ⟨by simp, hplan, _, l, Store.get?_next l.struct .stack slots, rfl, rfl, hl, rfl⟩
  have hold : OwnedBy n (s.allocate l.struct .stack slots) waiting Γ
      { a with owned := s.next :: a.owned } := by
    refine ⟨h.heap.allocate _ _ _, ?_, ?_, ?_, h.waiting_allocate _ _ _⟩
    · rw [hreach]
      refine List.nodup_cons.2 ⟨?_, h.nodup⟩
      intro hmem
      obtain ⟨owner', hat⟩ := h.frameAt_of_mem hmem
      obtain ⟨object, -, ho, -⟩ := hat.object
      have := (Array.getElem?_eq_some_iff.1 ho).1
      simp [Store.next] at this
    · rw [hreach]
      have hvalues := (h.values.keep (keeps_allocate l.struct .stack slots)).mono hsub
      exact ⟨hvalues.value, hvalues.local⟩
    · rw [hreach]
      intro o ho
      rcases List.mem_cons.1 ho with rfl | ho
      · refine ⟨owner, hnew, ?_⟩
        intro object k v role ho hv
        have := Store.slot_of_allocate ho hv
        have := (Array.getElem?_eq_some_iff.1 this).1
        simp [Store.next] at this
      · refine ((h.frames o ho).keep (keeps_allocate l.struct .stack slots) ?_).mono hsub
        intro object' k v ho' hv
        exact .inl ⟨object', Store.slot_of_allocate ho' hv, hv⟩
  refine hold.define (a := { a with owned := s.next :: a.owned }) ?_
  rw [hreach, hdest]
  exact .inr ⟨owner, s.next, rfl, rfl, hnew⟩

end OwnedBy

/-! ### Writes -/

section

variable {s : Store} {reach : List ObjectId} {o : ObjectId} {k : Nat} {v : Value}

theorem keeps_set : Store.Keeps reach s (s.set o k v) := by
  intro o' object ho' _
  rw [Store.get?_set]
  split
  · exact ⟨{ object with slots := object.slots.setIfInBounds k (some v) }, by simp [ho'], rfl, rfl, rfl⟩
  · exact ⟨object, ho', rfl, rfl, rfl⟩

end

/-- A slot is written: with a lasting value, or with any that may be there if the frame is the
activation's own. -/
theorem OwnedBy.write {n : Nesting} {s : Store} {waiting : List Activation} {Γ : Roles}
    {a : Activation} (h : OwnedBy n s waiting Γ a) {o : ObjectId} {k : Nat} {v : Value}
    (hv : v.Lasting s ∨ (o ∈ a.owned ∧ ∀ owner role, FrameAt n s (reachOf (a :: waiting)) owner o →
      n.slotRole? owner k = some role → Held n s (reachOf (a :: waiting)) role v)) :
    OwnedBy n (s.set o k v) waiting Γ a := by
  have hback : ∀ {o' : ObjectId} {owner : DeclId} {r : List ObjectId},
      FrameAt n (s.set o k v) r owner o' → FrameAt n s r owner o' := by
    rintro o' owner r ⟨hmem, hplan, object', l, ho', hkind, hlive, hl, hstruct⟩
    refine ⟨hmem, hplan, ?_⟩
    rw [Store.get?_set] at ho'
    split at ho'
    · obtain ⟨object, ho, rfl⟩ := Option.map_eq_some_iff.1 ho'
      exact ⟨object, l, ho, hkind, hlive, hl, hstruct⟩
    · exact ⟨object', l, ho', hkind, hlive, hl, hstruct⟩
  refine ⟨?_, h.nodup, h.values.keep keeps_set, ?_, h.waiting.keep keeps_set ?_⟩
  · intro o' object' ho' hkind
    obtain ⟨object, ho, hkind', hlive', hslots⟩ : ∃ object, s.objects[o'.index]? = some object ∧
        object'.kind = object.kind ∧ object'.live = object.live ∧
          (object' = object ∨ o' = o) := by
      rw [Store.get?_set] at ho'
      split at ho'
      · rename_i heq
        obtain ⟨object, ho, rfl⟩ := Option.map_eq_some_iff.1 ho'
        exact ⟨object, ho, rfl, rfl, .inr (congrArg ObjectId.mk heq.symm)⟩
      · exact ⟨object', ho', rfl, rfl, .inl rfl⟩
    have hheap := h.heap o' object ho (hkind' ▸ hkind)
    refine ⟨hlive'.trans hheap.1, ?_⟩
    intro j w hw
    rcases Store.slot_of_set ho' hw with ⟨rfl, rfl, rfl⟩ | ⟨object₂, ho₂, hw⟩
    · rcases hv with hv | ⟨hown, -⟩
      · exact hv.keep (keeps_set : Store.Keeps [] s _)
      · obtain ⟨owner, hat, -⟩ := h.frames o' hown
        obtain ⟨object₂, -, ho₂, hstack, -⟩ := hat.object
        rw [ho] at ho₂
        cases ho₂
        rw [hkind', hstack] at hkind
        cases hkind
    · rw [ho] at ho₂
      cases ho₂
      exact (hheap.2 j w hw).keep (keeps_set : Store.Keeps [] s _)
  · intro o' ho'
    refine (h.frames o' ho').keep keeps_set fun object' j w hobj hw => ?_
    rcases Store.slot_of_set hobj hw with ⟨rfl, rfl, rfl⟩ | hold
    · refine .inr fun owner role hat hrole => ?_
      rcases hv with hv | ⟨-, hv⟩
      · exact (hv.held (not_isAddress_of_slotRole? hrole)).keep keeps_set
      · exact (hv owner role (hback hat) hrole).keep keeps_set
    · exact .inl hold
  · intro o' ho' object' j w hobj hw
    rcases Store.slot_of_set hobj hw with ⟨rfl, rfl, rfl⟩ | hold
    · refine .inr ?_
      rcases hv with hv | ⟨hown, -⟩
      · exact hv.keep (keeps_set : Store.Keeps [] s _)
      · have hnodup := h.nodup
        rw [reachOf_cons, List.nodup_append] at hnodup
        exact absurd rfl (hnodup.2.2 o' hown o' ho')
    · exact .inl hold

/-! ### Returns -/

theorem HeapOk.releaseAll {s : Store} (h : HeapOk s) {ids : List ObjectId}
    (hstack : ∀ o ∈ ids, ∃ object, s.objects[o.index]? = some object ∧ object.kind = .stack) :
    HeapOk (s.releaseAll ids) := by
  have hheap : ∀ (o : ObjectId) (object : Object), s.objects[o.index]? = some object →
      object.kind = .heap → (s.releaseAll ids).objects[o.index]? = some object := by
    intro o object ho hkind
    rw [Store.get?_releaseAll, if_neg, ho]
    intro hmem
    obtain ⟨object', ho', hstack⟩ := hstack o hmem
    rw [ho] at ho'
    cases ho'
    rw [hkind] at hstack
    cases hstack
  have hkeeps : Store.Keeps [] s (s.releaseAll ids) := by
    intro o object ho hor
    rcases hor with hkind | hmem
    · exact ⟨object, hheap o object ho hkind, rfl, rfl, rfl⟩
    · simp at hmem
  intro o object' ho' hkind'
  obtain ⟨object, ho, hkind⟩ : ∃ object, s.objects[o.index]? = some object ∧ object.kind = .heap := by
    rw [Store.get?_releaseAll] at ho'
    split at ho'
    · obtain ⟨old, hold, heq⟩ := Option.map_eq_some_iff.1 ho'
      exact ⟨old, hold, by rw [← heq] at hkind'; exact hkind'⟩
    · exact ⟨object', ho', hkind'⟩
  rw [hheap o object ho hkind] at ho'
  cases ho'
  obtain ⟨hlive, hslots⟩ := h o _ ho hkind
  exact ⟨hlive, fun k v hv => (hslots k v hv).keep hkeeps⟩

namespace OwnedBy

variable {n : Nesting} {s : Store} {waiting : List Activation} {Γ : Roles} {a : Activation}

theorem stack_of_mem (h : OwnedBy n s waiting Γ a) {o : ObjectId} (ho : o ∈ reachOf (a :: waiting)) :
    ∃ object, s.objects[o.index]? = some object ∧ object.kind = .stack := by
  obtain ⟨owner, hat⟩ := h.frameAt_of_mem ho
  obtain ⟨object, -, ho, hkind, -⟩ := hat.object
  exact ⟨object, ho, hkind⟩

/-- What is released is not within reach of the activations that wait. -/
theorem keeps_release (h : OwnedBy n s waiting Γ a) :
    Store.Keeps (reachOf waiting) s (s.releaseAll a.owned) := by
  intro o object ho hor
  refine ⟨object, ?_, rfl, rfl, rfl⟩
  rw [Store.get?_releaseAll, if_neg, ho]
  intro hmem
  rcases hor with hkind | hreach
  · obtain ⟨object', ho', hstack⟩ := h.stack_of_mem (o := o) (by simp [hmem])
    rw [ho] at ho'
    cases ho'
    rw [hkind] at hstack
    cases hstack
  · have hnodup := h.nodup
    rw [reachOf_cons, List.nodup_append] at hnodup
    exact hnodup.2.2 o hmem o hreach rfl

/-- The caller goes on, with a result if it asked for one. -/
theorem ret {caller : Activation} (h : OwnedBy n s (caller :: waiting) Γ a) :
    ∃ Δ ret, OwnedBy n (s.releaseAll a.owned) waiting Δ caller ∧ BlocksOk n False ret Δ caller.blocks ∧
      ∀ d, a.dest = some d → ∃ ty, Δ.ofValue d = .value ty := by
  have hwait := h.waiting.keep h.keeps_release fun o _ object' k v ho hv =>
    .inl (Store.slot_of_releaseAll ho hv)
  obtain ⟨⟨Δ, ret, hvalues, hblocks, hdest⟩, hframes, hrest⟩ := hwait
  refine ⟨Δ, ret, ⟨?_, ?_, hvalues, hframes, hrest⟩, hblocks, hdest⟩
  · exact h.heap.releaseAll fun o ho => h.stack_of_mem (by simp [ho])
  · have hnodup := h.nodup
    rw [reachOf_cons, List.nodup_append] at hnodup
    exact hnodup.2.1

end OwnedBy

/-! ### Calls -/

/-- A function that is called with what it asks for starts with values in their roles. -/
theorem valuesHeld_of_enter {n : Nesting} {policy : FramePolicy} {m : Lir.Module}
    (hm : n.Lowers policy m) {s : Store} {reach : List ObjectId} {id : DeclId} {f : Lir.Function}
    (hf : n.LoweredTo id f) {args : List Value} {dest : Option ValueId} {callee : Activation}
    (he : Activation.enter f args dest = .ok callee)
    (hargs : ∀ function (i : Nat) v role, n.program.function? id = some function → args[i]? = some v →
      (n.calleeRoles id function)[i]? = some role → Held n s reach role v) :
    ∃ Γ ret, ValuesHeld n s reach Γ callee ∧ BlocksOk n False ret Γ callee.blocks := by
  obtain ⟨scope, v, -, -, hcode⟩ := hf
  obtain ⟨function, Γ, hfun, hroles⟩ :=
    hcode.exists_roles False hm.built n.scope_nesting fun h => h.elim
  have hentered := Activation.entered_of_enter he
  refine ⟨Γ, function.returnType, ⟨fun r w hw => absurd hw (hentered.value_ne r w), fun x w hw => ?_⟩,
    hroles.blocksOk hentered⟩
  obtain ⟨harg, hrole⟩ := hroles.arg_of_entered hentered hw
  exact hargs function x.index w _ hfun harg hrole

theorem not_isAddress_of_calleeRoles {n : Nesting} {id : DeclId} {function : FunctionDecl} {role : Role}
    (h : role ∈ n.calleeRoles id function) : ¬role.IsAddress := by
  simp only [Nesting.calleeRoles, List.mem_append, List.mem_map] at h
  rcases h with h | ⟨x, -, rfl⟩
  · split at h
    · simp only [List.mem_singleton] at h
      simp [h, Role.IsAddress]
    · simp at h
  · simp [Role.IsAddress]

end StaticChain

import StaticChain.Proofs.Sites

/-!
# New carriers

The code that makes a carrier allocates an object and fills slots of it, the link first. At its end the
object holds the values that were stored (`leads_make`), which makes it the carrier of a new record: of an
instance with all its fields (`InstanceCode.leads`), or of an activation with the parameters that are
captured (`EnterCode.leads`).
-/

namespace StaticChain

open Lir (ValueId Inst Ty)
open Machine

/-! ## Filling slots -/

/-- Stores values into slots one after the other. -/
def fill (slots : Array (Option Value)) (stores : List (Nat × Value)) : Array (Option Value) :=
  stores.foldl (fun slots store => slots.setIfInBounds store.1 (some store.2)) slots

@[simp] theorem size_fill (slots : Array (Option Value)) (stores : List (Nat × Value)) :
    (fill slots stores).size = slots.size := by
  unfold fill
  induction stores generalizing slots with
  | nil => rfl
  | cons store stores ih => simp [ih]

/-- A slot holds something that was stored into it, or what it held before. -/
theorem fill_cases {slots : Array (Option Value)} (stores : List (Nat × Value)) {i : Nat}
    (hi : i < slots.size) :
    (∃ v, (i, v) ∈ stores ∧ (fill slots stores)[i]? = some (some v)) ∨
      ((∀ v, (i, v) ∉ stores) ∧ (fill slots stores)[i]? = slots[i]?) := by
  induction stores generalizing slots with
  | nil => exact .inr ⟨by simp, rfl⟩
  | cons store stores ih =>
    obtain ⟨j, w⟩ := store
    have hfill : fill slots ((j, w) :: stores) = fill (slots.setIfInBounds j (some w)) stores := rfl
    rw [hfill]
    rcases @ih (slots.setIfInBounds j (some w)) (by simpa using hi) with ⟨v, hmem, hv⟩ | ⟨hnot, hv⟩
    · exact .inl ⟨v, List.mem_cons_of_mem _ hmem, hv⟩
    · by_cases hij : j = i
      · subst hij
        exact .inl ⟨w, by simp, by simpa [hi] using hv⟩
      · refine .inr ⟨?_, by simpa [hij] using hv⟩
        intro v hmem
        rcases List.mem_cons.1 hmem with heq | hmem
        · cases heq
          exact hij rfl
        · exact hnot v hmem

section

variable {n : Nesting} {m : Lir.Module} {σ σ' : Regs} {code : List Inst} {a : Activation} {c : CallStack}
  {cont : Cont} {store : Store}

/-- The values that are stored, slot by slot. -/
def StoreValues (σ : Regs) (a : Activation) (stores : List SlotStore) (pairs : List (Nat × Value)) : Prop :=
  List.Forall₂ (fun s p => s.slot = p.1 ∧ a.value s.value = .ok p.2 ∧ s.value.index < σ.values.size)
    stores pairs

theorem StoreValues.keep {stores : List SlotStore} {pairs : List (Nat × Value)} {a' : Activation}
    (h : StoreValues σ a stores pairs) (hk : a.Keeps σ a') (hle : σ.Le σ') :
    StoreValues σ' a' stores pairs := by
  refine h.imp ?_
  rintro s p ⟨hslot, hv, hlt⟩
  exact ⟨hslot, by rw [hk.value _ hlt, hv], Nat.lt_of_lt_of_le hlt hle.values⟩

/-- The values of fields, with the slots of the fields. -/
theorem StoreValues.zip (slots : List (Layout.Slot × Nat)) {rs : List ValueId} {vs : List Value}
    (h : List.Forall₂ (fun r v => a.value r = .ok v ∧ r.index < σ.values.size) rs vs) :
    StoreValues σ a ((slots.zip rs).map fun s => ⟨s.1.2, s.2, s.1.1.ty⟩)
      ((slots.zip vs).map fun s => (s.1.2, s.2)) := by
  induction h generalizing slots with
  | nil => simp [StoreValues]
  | cons hv _ ih =>
    cases slots with
    | nil => simp [StoreValues]
    | cons slot slots => exact .cons ⟨rfl, hv.1, hv.2⟩ (ih slots)

/-- The link that is stored, if the carrier has one. -/
theorem StoreValues.exists_link {linkSlot : Option Nat} {incoming : Option ValueId} {context : Option ObjectId}
    (hlink : linkSlot.isSome = true → incoming.isSome = true) (hincoming : ∀ r, incoming = some r →
      a.value r = .ok (.ofContext context) ∧ r.index < σ.values.size) :
    ∃ links, StoreValues σ a (linkStores linkSlot incoming) links ∧
      ∀ i v, (i, v) ∈ links ↔ linkSlot = some i ∧ v = .ofContext context := by
  cases linkSlot with
  | none => exact ⟨[], .nil, by simp⟩
  | some i =>
    obtain ⟨r, rfl⟩ := Option.isSome_iff_exists.1 (hlink rfl)
    obtain ⟨hr, hlt⟩ := hincoming r rfl
    refine ⟨[(i, .ofContext context)], .cons ⟨rfl, hr, hlt⟩ .nil, ?_⟩
    intro j v
    simp [eq_comm]

/-- Code that fills slots of an object. -/
theorem StoresCode.leads {struct : Lir.StructId} {target : ValueId} {stores : List SlotStore}
    (h : StoresCode struct target σ stores code σ') (hfits : a.Fits σ') {o : ObjectId} {object : Object}
    (htarget : a.value target = .ok (.object o)) (hlt : target.index < σ.values.size)
    (hobj : store.objects[o.index]? = some object) (hlive : object.live = true)
    (hstruct : object.struct = struct) {pairs : List (Nat × Value)}
    (hpairs : StoreValues σ a stores pairs) (hslots : ∀ p ∈ pairs, p.1 < object.slots.size) :
    ∃ a' store', State.Leads m code.length ⟨a.resume (cont.before code), c, store⟩
        ⟨a'.resume cont, c, store'⟩ ∧ a.Keeps σ a' ∧
      (∀ i, i ≠ o.index → store'.objects[i]? = store.objects[i]?) ∧
      store'.objects[o.index]? = some { object with slots := fill object.slots pairs } := by
  induction h generalizing a store object pairs with
  | nil =>
    cases hpairs
    exact ⟨a, store, .refl _, .refl _ a, fun _ _ => rfl, hobj⟩
  | @cons σ σ' s stores code h ih =>
    obtain ⟨⟩ | ⟨⟨hslot, hv, hvlt⟩, hpairs⟩ := hpairs
    rename_i p pairs
    obtain ⟨i, v⟩ := p
    simp only at hslot hv
    subst hslot
    have hfits₁ := hfits.of_le h.le
    have hkeeps : a.Keeps σ (a.define σ.next (.slot o s.slot)) :=
      (Activation.Keeps.refl σ a).define (.refl σ) _
    have hle := σ.le_value .ptr
    have hobj' : (store.set o s.slot v).objects[o.index]? =
        some { object with slots := object.slots.setIfInBounds s.slot (some v) } := by
      simp [Store.get?_set, hobj]
    obtain ⟨a', store', hleads, hkeeps', hsame, hnew⟩ := ih (hfits.keep hkeeps)
      (by rw [hkeeps.value _ hlt, htarget]) (Nat.lt_of_lt_of_le hlt hle.values) hobj' hlive hstruct
      (StoreValues.keep hpairs hkeeps hle)
      (fun p hp => by simpa using hslots p (List.mem_cons_of_mem _ hp))
    refine ⟨a', store', ?_, hkeeps.trans hkeeps' hle, ?_, hnew⟩
    · rw [Cont.before_cons, List.length_cons, Nat.add_comm]
      refine (State.leads_of_define (.fieldAddr htarget hobj hlive hstruct)).trans ?_
      rw [Cont.before_cons, List.length_cons, Nat.add_comm]
      refine State.Leads.trans (State.leads_of_moves ?_ .write) hleads
      refine .store (hfits₁.value_define _) ?_ hobj hlive (hslots (s.slot, v) (by simp))
      exact (hkeeps.value _ hvlt).trans hv
    · intro i hi
      rw [hsame i hi, Store.get?_set, if_neg (Ne.symm hi)]

variable {policy : FramePolicy}

/-- The struct type of a carrier. -/
theorem Nesting.Lowers.struct?_eq (hm : n.Lowers policy m) {owner : DeclId} {l : Layout}
    (hl : n.layouts.layout? owner = some l) : m.struct? l.struct = some l.toStruct := by
  have hby : n.layouts.layouts[l.struct.index]? = some l := hm.built.byStruct?_eq hl
  simp [Lir.Module.struct?, hm.structs_eq, Layouts.structs, hby]

/-- Code that makes an object and fills slots of it. -/
theorem leads_make (hm : n.Lowers policy m) (hlive : store.AllLive) {owner : DeclId} {l : Layout}
    (hl : n.layouts.layout? owner = some l) {stores : List SlotStore}
    (h : StoresCode l.struct σ.next (σ.value .ptr) stores code σ') (hfits : a.Fits σ')
    {pairs : List (Nat × Value)} (hpairs : StoreValues σ a stores pairs)
    (hslots : ∀ p ∈ pairs, p.1 < l.slots.length) :
    ∃ a' store' object, State.Leads m (code.length + 1)
        ⟨a.resume (cont.before (.alloc σ.next l.struct .heap :: code)), c, store⟩
        ⟨a'.resume cont, c, store'⟩ ∧ a.Keeps σ a' ∧ a'.value σ.next = .ok (.object store.next) ∧
      store'.AllLive ∧ (∀ (i : Nat) (object : Object), store.objects[i]? = some object →
        store'.objects[i]? = some object) ∧ CarrierAt n store' owner l store.next object ∧
      object.slots = fill (Array.replicate l.slots.length none) pairs := by
  have hfits₁ := hfits.of_le h.le
  have hkeeps : a.Keeps σ (a.define σ.next (.object store.next)) :=
    (Activation.Keeps.refl σ a).define (.refl σ) _
  have hle := σ.le_value .ptr
  have hlen : l.toStruct.slots.length = l.slots.length := by simp [Layout.toStruct]
  obtain ⟨a', store', hleads, hkeeps', hsame, hnew⟩ := h.leads (hfits.keep hkeeps)
    (hfits₁.value_define _) (by simp [Regs.next])
    (store.get?_next l.struct .heap l.toStruct.slots.length) rfl rfl
    (StoreValues.keep hpairs hkeeps hle) (by simpa [hlen] using hslots)
  have hold : ∀ (i : Nat) (object : Object), store.objects[i]? = some object →
      store'.objects[i]? = some object := by
    intro i object hi
    have hlt : i < store.objects.size := (Array.getElem?_eq_some_iff.1 hi).1
    rw [hsame i (by simp [Store.next]; omega), Store.get?_allocate, if_neg (by omega), hi]
  refine ⟨a', store', _, ?_, hkeeps.trans hkeeps' hle, ?_, ?_, hold, ⟨hnew, hl, rfl⟩, ?_⟩
  · rw [Cont.before_cons, Nat.add_comm]
    exact State.Leads.trans (State.leads_of_moves (.alloc (hm.struct?_eq hl)) .allocateHeap) hleads
  · rw [hkeeps'.value _ (by simp [Regs.next])]
    exact hfits₁.value_define _
  · intro id object hobj
    by_cases hid : id.index = store.next.index
    · rw [hid, hnew] at hobj
      cases hobj
      rfl
    · rw [hsame _ hid, Store.get?_allocate, if_neg (by simpa [Store.next] using hid)] at hobj
      exact hlive id object hobj
  · simp [hlen]

/-! ## Carriers of new records -/

/-- Code that makes the carrier of a new record, of which some variables are set. -/
theorem leads_carrier (hm : n.Lowers policy m) {W : Placement} {memory : Memory}
    (hd : Depicts n W memory store) (hlive : store.AllLive) {owner : DeclId} {l : Layout}
    (hl : n.layouts.layout? owner = some l) {incoming : Option ValueId} {stores : List SlotStore}
    (h : StoresCode l.struct σ.next (σ.value .ptr) (linkStores l.linkSlot? incoming ++ stores) code σ')
    (hfits : a.Fits σ') (hlink : l.linkSlot?.isSome = true → incoming.isSome = true)
    {context : Option ObjectId} (hincoming : ∀ r, incoming = some r →
      a.value r = .ok (.ofContext context) ∧ r.index < σ.values.size)
    {pairs : List (Nat × Value)} (hpairs : StoreValues σ a stores pairs) {cells : VarId → Option Datum}
    (hset : ∀ i v, (i, v) ∈ pairs → ∃ x d slot, l.slots[i]? = some slot ∧ slot.kind.var? = some x ∧
      cells x = some d ∧ Represents n W (n.program.varType x) d v)
    (hunset : ∀ x i, l.slotOf? x = some i → (∀ v, (i, v) ∉ pairs) → cells x = none)
    (hfields : n.program.isAggregate owner = true → ∀ x i, l.slotOf? x = some i → cells x ≠ none) :
    ∃ a' store', State.Leads m (code.length + 1)
        ⟨a.resume (cont.before (.alloc σ.next l.struct .heap :: code)), c, store⟩
        ⟨a'.resume cont, c, store'⟩ ∧ a.Keeps σ a' ∧ a'.value σ.next = .ok (.object store.next) ∧
      store'.AllLive ∧ Depicts n
        (Function.update W memory.next (some ⟨owner, store.next, context⟩)) (memory.add cells) store' := by
  have hn := hm.built
  -- What is stored is the link, where there is one, and the variables.
  obtain ⟨links, hlinks, hmem⟩ := StoreValues.exists_link hlink hincoming
  have hlt : ∀ p ∈ links ++ pairs, p.1 < l.slots.length := by
    rintro ⟨i, v⟩ hp
    rcases List.mem_append.1 hp with hp | hp
    · obtain ⟨slot, hslot, -⟩ := (hn.layout_of hl).kind_linkSlot ((hmem i v).1 hp).1
      exact (List.getElem?_eq_some_iff.1 hslot).1
    · obtain ⟨_, _, slot, hslot, -⟩ := hset i v hp
      exact (List.getElem?_eq_some_iff.1 hslot).1
  obtain ⟨a', store', object, hleads, hkeeps, hvalue, hlive', hold, hat, hslots⟩ :=
    leads_make hm hlive hl h hfits (List.rel_append hlinks hpairs) hlt
  refine ⟨a', store', hleads, hkeeps, hvalue, hlive', ?_⟩
  refine hd.addCarrier hold (by simp [Store.next]) hat ⟨?_, ?_, hfields⟩
  · intro x i hx
    obtain ⟨slot, hslot, hkind⟩ := Layout.kind_of_slotOf? hx
    have hi : i < (Array.replicate l.slots.length (none : Option Value)).size := by
      simpa using (List.getElem?_eq_some_iff.1 hslot).1
    rw [hslots]
    rcases fill_cases (links ++ pairs) hi with ⟨v, hv, hget⟩ | ⟨hnot, hget⟩
    · rcases List.mem_append.1 hv with hv | hv
      · exact absurd rfl (hn.slotOf?_ne_linkSlot? hl hx ((hmem i v).1 hv).1)
      · obtain ⟨y, d, slot', hslot', hkind', hcell, hrep⟩ := hset i v hv
        rw [hslot] at hslot'
        cases hslot'
        rw [hkind] at hkind'
        cases hkind'
        rw [hget, hcell]
        exact .set (hrep.extend (hd.extends_update _))
    · rw [hget, hunset x i hx fun v hv => hnot v (List.mem_append_right _ hv)]
      have hi' : i < l.slots.length := by simpa using hi
      simpa [hi'] using CellHolds.unset
  · intro i hi
    obtain ⟨slot, hslot, hkind⟩ := (hn.layout_of hl).kind_linkSlot hi
    have hlt' : i < (Array.replicate l.slots.length (none : Option Value)).size := by
      simpa using (List.getElem?_eq_some_iff.1 hslot).1
    rw [hslots]
    rcases fill_cases (links ++ pairs) hlt' with ⟨v, hv, hget⟩ | ⟨hnot, -⟩
    · rcases List.mem_append.1 hv with hv | hv
      · rw [hget, ((hmem i v).1 hv).2]
      · obtain ⟨y, d, slot', hslot', hkind', -⟩ := hset i v hv
        rw [hslot] at hslot'
        cases hslot'
        rcases hkind with hkind | hkind <;> simp [hkind, Layout.SlotKind.var?] at hkind'
    · exact absurd (List.mem_append_left _ ((hmem i _).2 ⟨hi, rfl⟩)) (hnot _)

theorem Program.Checked.locals_nodup_of {p : Program} (hp : p.Checked) {id : DeclId} {decl : Declaration}
    (h : p.decl? id = some decl) : decl.locals.Nodup := by
  have hall := hp.locals_nodup
  unfold Program.allLocals at hall
  exact (List.nodup_flatMap.1 hall).1 decl (Program.mem_of_decl? h)

/-- The slots of an instance that hold variables hold fields. -/
theorem Layout.Of.kind_of_isAggregate {p : Program} {captures : Captures} {struct : Lir.StructId}
    {id : DeclId} {l : Layout} (h : Layout.Of p captures struct id l) (ha : p.isAggregate id = true)
    {i : Nat} {slot : Layout.Slot} {x : VarId} (hslot : l.slots[i]? = some slot)
    (hx : slot.kind.var? = some x) : slot.kind = .field x := by
  cases h with
  | frame hd hk hs needed hslots =>
    rw [Program.isAggregate_of_function (Program.function?_eq_some_iff.2 ⟨_, hd, hk⟩)] at ha
    cases ha
  | aggregate hd hk hs hslots =>
    rw [List.getElem?_append] at hslot
    split at hslot
    · obtain ⟨y, var, -, -, hkind, -⟩ := kind_of_lt hslots hslot
      rw [hkind] at hx
      cases hx
      exact hkind
    · split at hslot
      · obtain ⟨_, rfl⟩ := List.getElem?_eq_some_iff.1 hslot
        simp [SlotKind.var?] at hx
      · simp at hslot

/-- The slot of a field is one of the slots of fields, at the place of the field. -/
theorem Layout.Of.exists_fieldSlot {p : Program} {captures : Captures} {struct : Lir.StructId}
    {id : DeclId} {l : Layout} (h : Layout.Of p captures struct id l) {decl : AggregateDecl}
    (ha : p.aggregate? id = some decl) {x : VarId} {i : Nat} (hx : l.slotOf? x = some i) :
    ∃ (j : Nat) (slot : Layout.Slot), decl.fields[j]? = some x ∧ l.fieldSlots[j]? = some (slot, i) := by
  obtain ⟨slot, hslot, hvar⟩ := Layout.kind_of_slotOf? hx
  have hfield := h.kind_of_isAggregate (Program.isAggregate_iff.2 ⟨decl, ha⟩) hslot hvar
  have hmem : (slot, i) ∈ l.fieldSlots := by
    unfold Layout.fieldSlots
    rw [List.mem_filter, List.mem_zipIdx_iff_getElem?]
    exact ⟨hslot, by simp [hfield]⟩
  obtain ⟨j, hj, hjeq⟩ := List.getElem_of_mem hmem
  have hslots := h.fieldSlots_eq ha
  have hj' : j < decl.fields.length := hslots.length_eq ▸ hj
  obtain ⟨-, h₂⟩ := hslots.get hj' hj
  simp only [List.get_eq_getElem, hjeq, hfield, Layout.SlotKind.field.injEq] at h₂
  exact ⟨j, slot, List.getElem?_eq_some_iff.2 ⟨hj', h₂.symm⟩, List.getElem?_eq_some_iff.2 ⟨hj, hjeq⟩⟩

/-- Code that makes an instance makes the carrier of its record. -/
theorem InstanceCode.leads (hm : n.Lowers policy m) {W : Placement} {memory : Memory}
    (hd : Depicts n W memory store) (hlive : store.AllLive) {aggregate : DeclId} {decl : AggregateDecl}
    (ha : n.program.aggregate? aggregate = some decl) {outer : Option ValueId} {rs : List ValueId}
    {r : ValueId} (h : InstanceCode n aggregate outer rs σ code r σ') (hfits : a.Fits σ')
    {context : Option ObjectId} (houter : ∀ r, outer = some r →
      a.value r = .ok (.ofContext context) ∧ r.index < σ.values.size)
    {ds : List Datum} {vs : List Value} (hds : RepresentsAll n W (decl.fields.map n.program.varType) ds vs)
    (hvs : List.Forall₂ (fun r v => a.value r = .ok v ∧ r.index < σ.values.size) rs vs) :
    ∃ a' store', State.Leads m code.length ⟨a.resume (cont.before code), c, store⟩
        ⟨a'.resume cont, c, store'⟩ ∧ a.Keeps σ a' ∧ a'.value r = .ok (.object store.next) ∧
      store'.AllLive ∧ Depicts n (Function.update W memory.next (some ⟨aggregate, store.next, context⟩))
        (memory.add (Program.initial decl.fields ds)) store' := by
  have hn := hm.built
  have hagg : n.program.isAggregate aggregate = true := Program.isAggregate_iff.2 ⟨decl, ha⟩
  obtain ⟨d, hdecl, hkind⟩ := Program.aggregate?_eq_some_iff.1 ha
  have hnodup : decl.fields.Nodup := by
    rw [hn.checked.fields_eq hdecl hkind]
    exact hn.checked.locals_nodup_of hdecl
  obtain ⟨hl, hlen, hout, hstores⟩ := h
  rename_i l code
  have hof := hn.layout_of hl
  have hslots := hof.fieldSlots_eq ha
  rw [← hof.linkSlot_of_isAggregate hagg] at hstores hout
  have hget : ∀ (j : Nat) (x : VarId), decl.fields[j]? = some x → ∃ d v slot, l.fieldSlots[j]? = some slot ∧
      l.slots[slot.2]? = some slot.1 ∧ slot.1.kind = .field x ∧ vs[j]? = some v ∧
      Program.initial decl.fields ds x = some d ∧ Represents n W (n.program.varType x) d v := by
    intro j x hx
    have hty : (decl.fields.map n.program.varType)[j]? = some (n.program.varType x) := by simp [hx]
    obtain ⟨e, v, he, hv, hrep⟩ := hds.get hty
    obtain ⟨hlt, rfl⟩ := List.getElem?_eq_some_iff.1 hx
    have hlt' : j < l.fieldSlots.length := hslots.length_eq ▸ hlt
    obtain ⟨h₁, h₂⟩ := hslots.get hlt hlt'
    exact ⟨e, v, l.fieldSlots[j], by simp, h₁, h₂, hv, Program.initial_eq_some hnodup hx he, hrep⟩
  refine leads_carrier hm hd hlive hl hstores hfits (fun hsome => hout ▸ hsome) houter
    (.zip l.fieldSlots hvs) ?_ ?_ ?_
  · intro i v hmem
    obtain ⟨⟨s, w⟩, hzipped, heq⟩ := List.mem_map.1 hmem
    cases heq
    obtain ⟨j, hj, hjeq⟩ := List.getElem_of_mem hzipped
    rw [List.length_zip] at hj
    have hj' : j < decl.fields.length := by
      rw [hslots.length_eq]
      omega
    obtain ⟨e, v', slot, hs, hslot, hkind', hv, hinit, hrep⟩ := hget j decl.fields[j] (by simp)
    rw [List.getElem_zip] at hjeq
    cases hjeq
    rw [List.getElem?_eq_getElem (by omega)] at hs hv
    cases hs
    cases hv
    exact ⟨_, e, _, hslot, by simp [hkind', Layout.SlotKind.var?], hinit, hrep⟩
  · intro x i hx hnot
    obtain ⟨j, slot, hj, hs⟩ := hof.exists_fieldSlot ha hx
    obtain ⟨e, v, slot', hs', -, -, hv, -⟩ := hget j x hj
    refine absurd (List.mem_map.2 ⟨((slot, i), v), ?_, rfl⟩) (hnot v)
    have hzipped : (l.fieldSlots.zip vs)[j]? = some ((slot, i), v) := by
      simp [List.getElem?_zip_eq_some, hs, hv]
    exact List.mem_of_getElem? hzipped
  · intro _ x i hx
    obtain ⟨j, slot, hj, -⟩ := hof.exists_fieldSlot ha hx
    obtain ⟨e, v, _, -, -, -, -, hinit, -⟩ := hget j x hj
    simp [hinit]

/-- The values of captured parameters, with their slots. -/
theorem ParamStores.exists_pairs {l : Layout} {arrived : List (VarId × ValueId)} {stores : List SlotStore}
    (h : ParamStores l arrived stores)
    (ha : ∀ x r, (x, r) ∈ arrived → ∃ v, a.value r = .ok v ∧ r.index < σ.values.size) :
    ∃ pairs, StoreValues σ a stores pairs ∧
      (∀ i v, (i, v) ∈ pairs → ∃ x r, (x, r) ∈ arrived ∧ l.slotOf? x = some i ∧ a.value r = .ok v) ∧
      ∀ x r, (x, r) ∈ arrived → ∃ i v, l.slotOf? x = some i ∧ (i, v) ∈ pairs := by
  induction h with
  | nil => exact ⟨[], .nil, by simp, by simp⟩
  | @cons x r rest i stores hslot _ ih =>
    obtain ⟨pairs, hpairs, hfrom, hto⟩ := ih fun y r hy => ha y r (List.mem_cons_of_mem _ hy)
    obtain ⟨v, hv, hlt⟩ := ha x r (by simp)
    refine ⟨(i, v) :: pairs, .cons ⟨rfl, hv, hlt⟩ hpairs, ?_, ?_⟩
    · intro j w hmem
      rcases List.mem_cons.1 hmem with heq | hmem
      · cases heq
        exact ⟨x, r, by simp, hslot, hv⟩
      · obtain ⟨y, r', hy, hrest⟩ := hfrom j w hmem
        exact ⟨y, r', List.mem_cons_of_mem _ hy, hrest⟩
    · intro y r' hmem
      rcases List.mem_cons.1 hmem with heq | hmem
      · cases heq
        exact ⟨i, v, hslot, by simp⟩
      · obtain ⟨j, w, hj, hw⟩ := hto y r' hmem
        exact ⟨j, w, hj, List.mem_cons_of_mem _ hw⟩

variable (c cont) in
/-- Code that enters a function makes the carrier of its record, if it has one. -/
theorem EnterCode.leads (hm : n.Lowers .alwaysHeap m) {W : Placement} {memory : Memory}
    (hd : Depicts n W memory store) (hlive : store.AllLive) {decl : DeclId} {incoming : Option ValueId}
    {arrived : List (VarId × ValueId)} {v : Vantage}
    (h : EnterCode n decl incoming arrived σ code v σ') (hfits : a.Fits σ')
    {context : Option ObjectId} (hincoming : ∀ r, incoming = some r →
      a.value r = .ok (.ofContext context) ∧ r.index < σ.values.size) (cells : VarId → Option Datum)
    (harrived : ∀ x r, (x, r) ∈ arrived → ∃ d v, cells x = some d ∧
      Represents n W (n.program.varType x) d v ∧ a.value r = .ok v ∧ r.index < σ.values.size)
    (hunset : ∀ l x i, n.layouts.layout? decl = some l → l.slotOf? x = some i →
      (∀ r, (x, r) ∉ arrived) → cells x = none) :
    ∃ a' W' store', State.Leads m code.length ⟨a.resume (cont.before code), c, store⟩
        ⟨a'.resume cont, c, store'⟩ ∧ a.Keeps σ a' ∧ W.Extends W' ∧ store'.AllLive ∧
      Depicts n W' (memory.add cells) store' ∧ ∀ r, v.frame = some r → r.index < σ'.values.size ∧
        ∃ o, a'.value r = .ok (.object o) ∧ W' memory.next = some ⟨decl, o, context⟩ := by
  have hn := hm.built
  cases h with
  | frameless hneeded =>
    exact ⟨a, W, store, .refl _, .refl _ a, W.extends_refl, hlive, hd.add cells, by simp⟩
  | @framed l kind stores _ _ code hneeded hl hkind hparent hparams hstores =>
    obtain rfl : kind = .heap := hn.plan_kind hkind
    have hlink := (hn.layout_of hl).linkSlot_of_isFunction (hn.isFunction_of_isFrameNeeded hneeded)
    rw [← hlink] at hstores hparent
    have hfun := hn.isFunction_of_isFrameNeeded hneeded
    obtain ⟨function, hfunction⟩ := Program.isFunction_iff.1 hfun
    obtain ⟨pairs, hpairs, hfrom, hto⟩ := hparams.exists_pairs fun x r hx => by
      obtain ⟨_, v, -, -, hv, hlt⟩ := harrived x r hx
      exact ⟨v, hv, hlt⟩
    obtain ⟨a', store', hleads, hkeeps, hvalue, hlive', hd'⟩ :
        ∃ a' store', State.Leads m (code.length + 1)
          ⟨a.resume (cont.before (.alloc σ.next l.struct .heap :: code)), c, store⟩
          ⟨a'.resume cont, c, store'⟩ ∧ a.Keeps σ a' ∧ a'.value σ.next = .ok (.object store.next) ∧
          store'.AllLive ∧ Depicts n (Function.update W memory.next
            (some ⟨decl, store.next, context⟩)) (memory.add cells) store' := by
      refine leads_carrier hm hd hlive hl hstores hfits hparent hincoming hpairs ?_ ?_ ?_
      · intro i w hmem
        obtain ⟨x, r, hx, hslot, hw⟩ := hfrom i w hmem
        obtain ⟨d, w', hcell, hrep, hw', -⟩ := harrived x r hx
        rw [hw] at hw'
        cases hw'
        obtain ⟨slot, hslot', hkind'⟩ := Layout.kind_of_slotOf? hslot
        exact ⟨x, d, slot, hslot', hkind', hcell, hrep⟩
      · intro x i hx hnot
        refine hunset l x i hl hx fun r hr => ?_
        obtain ⟨j, w, hj, hw⟩ := hto x r hr
        rw [hx] at hj
        cases hj
        exact hnot w hw
      · intro ha
        rw [Program.isAggregate_of_function hfunction] at ha
        cases ha
    refine ⟨a', _, store', hleads, hkeeps, hd.extends_update _, hlive', hd', ?_⟩
    rintro _ ⟨⟩
    refine ⟨Nat.lt_of_lt_of_le (by simp [Regs.next]) hstores.le.values, store.next, hvalue, ?_⟩
    simp

end

end StaticChain

import StaticChain.Proofs.Environments

/-!
# Records and objects that change

What keeps a store a picture of a memory (`Depicts`): writing a variable into its slot, writing a variable
that has no slot, and making a record, with or without a carrier. Where variables that live in locals keep
their values is told apart (`Memory.Keeps`): no call changes them in records that were there before it.
-/

namespace StaticChain

open Machine

section

variable {n : Nesting} {policy : FramePolicy}

/-- A variable that has a slot is captured or a field. -/
theorem Nesting.Built.not_isPrivate (hn : n.Built policy) {owner : DeclId} {l : Layout}
    (hl : n.layouts.layout? owner = some l) {x : VarId} {i : Nat} (hx : l.slotOf? x = some i) :
    ¬n.IsPrivate x := by
  rintro ⟨hcaptured, hfield⟩
  obtain ⟨slot, hslot, hkind⟩ := Layout.kind_of_slotOf? hx
  have hof := hn.layout_of hl
  generalize l.struct = struct at hof
  cases hof with
  | @frame decl function summary slots hd hk hs needed hslots =>
    rw [List.getElem?_append] at hslot
    split at hslot
    · obtain ⟨y, var, hy, hv, hkind', -⟩ := Layout.Of.kind_of_lt hslots hslot
      rw [hkind'] at hkind
      cases hkind
      obtain ⟨uses, hs', hc⟩ := hn.summary?_eq hd
      rw [hs] at hs'
      cases hs'
      have hmem := List.mem_of_getElem? hy
      simp only [Captures.summaryOf, List.mem_filter] at hmem
      obtain ⟨hlt, hvar⟩ := Program.var?_eq_some_iff.1 hv
      rw [Captures.isCaptured, hc, ← Bool.not_eq_true, List.contains_iff_mem, List.mem_filter] at hcaptured
      refine hcaptured ⟨List.mem_map.2 ⟨var, ?_, hn.checked.var_id hv⟩, hmem.2⟩
      rw [← hvar]
      exact Array.getElem_mem_toList hlt
    · split at hslot
      · obtain ⟨_, rfl⟩ := List.getElem?_eq_some_iff.1 hslot
        simp [Layout.SlotKind.var?] at hkind
      · simp at hslot
  | @aggregate decl aggregate summary slots hd hk hs hslots =>
    rw [List.getElem?_append] at hslot
    split at hslot
    · obtain ⟨y, var, hy, hv, hkind', -⟩ := Layout.Of.kind_of_lt hslots hslot
      rw [hkind'] at hkind
      cases hkind
      refine hfield var hv (hn.checked.field_kind hd hk ?_ hv)
      rw [← hn.checked.fields_eq hd hk]
      exact List.mem_of_getElem? hy
    · split at hslot
      · obtain ⟨_, rfl⟩ := List.getElem?_eq_some_iff.1 hslot
        simp [Layout.SlotKind.var?] at hkind
      · simp at hslot

/-- A slot holds one variable. -/
theorem Layout.eq_of_slotOf? {l : Layout} {x y : VarId} {i : Nat} (hx : l.slotOf? x = some i)
    (hy : l.slotOf? y = some i) : x = y := by
  obtain ⟨slot, hslot, hkind⟩ := kind_of_slotOf? hx
  obtain ⟨slot', hslot', hkind'⟩ := kind_of_slotOf? hy
  rw [hslot] at hslot'
  cases hslot'
  rw [hkind] at hkind'
  exact Option.some.inj hkind'

/-- A link holds no variable. -/
theorem Nesting.Built.slotOf?_ne_linkSlot? (hn : n.Built policy) {owner : DeclId} {l : Layout}
    (hl : n.layouts.layout? owner = some l) {x : VarId} {i j : Nat} (hx : l.slotOf? x = some i)
    (hj : l.linkSlot? = some j) : i ≠ j := by
  rintro rfl
  obtain ⟨slot, hslot, hkind⟩ := Layout.kind_of_slotOf? hx
  obtain ⟨slot', hslot', hkind'⟩ := (hn.layout_of hl).kind_linkSlot hj
  rw [hslot] at hslot'
  cases hslot'
  rcases hkind' with hkind' | hkind' <;> simp [hkind', Layout.SlotKind.var?] at hkind

end

/-! ## Reading -/

namespace Depicts

variable {n : Nesting} {policy : FramePolicy} {W : Placement} {memory : Memory} {s : Store} {r : Nat}
  {k : Carrier} {l : Layout}

/-- The object of a record. -/
theorem exists_object (h : Depicts n W memory s) (hr : W r = some k)
    (hl : n.layouts.layout? k.decl = some l) :
    ∃ object, s.objects[k.object.index]? = some object ∧ object.struct = l.struct ∧
      CarrierHolds n W (memory.cells r) k l object := by
  obtain ⟨l', object, ⟨ho, hl', hstruct⟩, hholds⟩ := h.carrier r k hr
  rw [hl] at hl'
  cases hl'
  exact ⟨object, ho, hstruct, hholds⟩

/-! ## Writing -/

/-- A variable is written into its slot. -/
theorem set (hn : n.Built policy) (h : Depicts n W memory s) (hr : W r = some k)
    (hl : n.layouts.layout? k.decl = some l) {x : VarId} {i : Nat} (hx : l.slotOf? x = some i)
    {d : Datum} {v : Value} (hv : Represents n W (n.program.varType x) d v) :
    Depicts n W (memory.set r x d) (s.set k.object i v) := by
  refine ⟨h.made, h.apart, ?_⟩
  intro r' k' hr'
  obtain ⟨l', object, ⟨ho, hl', hstruct⟩, hholds⟩ := h.carrier r' k' hr'
  by_cases heq : r' = r
  · subst heq
    rw [hr] at hr'
    cases hr'
    rw [hl] at hl'
    cases hl'
    refine ⟨l, { object with slots := object.slots.setIfInBounds i (some v) },
      ⟨by simp [Store.get?_set, ho], hl, hstruct⟩, ?_, ?_, ?_⟩
    · intro y j hy
      by_cases hyx : y = x
      · subst hyx
        rw [hx] at hy
        cases hy
        have hlt : i < object.slots.size := (hholds.slot y i hx).lt_size
        simpa [hlt] using CellHolds.set hv
      · have hij : i ≠ j := by
          rintro rfl
          exact hyx (Layout.eq_of_slotOf? hy hx)
        rw [memory.set_cells_of_ne d (.inr hyx)]
        simpa [hij] using hholds.slot y j hy
    · intro j hj
      have hij := hn.slotOf?_ne_linkSlot? hl hx hj
      simpa [hij] using hholds.link j hj
    · intro ha y j hy
      by_cases hyx : y = x
      · simp [hyx]
      · rw [memory.set_cells_of_ne d (.inr hyx)]
        exact hholds.fields ha y j hy
  · have hne : k.object.index ≠ k'.object.index := by
      intro hidx
      exact heq (h.apart r' r k' k hr' hr (congrArg ObjectId.mk hidx.symm))
    refine ⟨l', object, ⟨by simp [Store.get?_set, hne, ho], hl', hstruct⟩, ?_⟩
    have hcells : (memory.set r x d).cells r' = memory.cells r' :=
      funext fun y => memory.set_cells_of_ne d (.inl heq)
    rw [hcells]
    exact hholds

/-- A variable without slot is written. -/
theorem setPrivate (hn : n.Built policy) (h : Depicts n W memory s) {x : VarId}
    (hx : n.IsPrivate x) (r : Nat) (d : Datum) : Depicts n W (memory.set r x d) s := by
  refine ⟨h.made, h.apart, ?_⟩
  intro r' k' hr'
  obtain ⟨l, object, hat, hholds⟩ := h.carrier r' k' hr'
  have hcells : ∀ y i, l.slotOf? y = some i → (memory.set r x d).cells r' y = memory.cells r' y := by
    intro y i hy
    refine memory.set_cells_of_ne d (.inr ?_)
    rintro rfl
    exact hn.not_isPrivate hat.layout_eq hy hx
  refine ⟨l, object, hat, ?_, hholds.link, ?_⟩
  · intro y i hy
    rw [hcells y i hy]
    exact hholds.slot y i hy
  · intro ha y i hy
    rw [hcells y i hy]
    exact hholds.fields ha y i hy

/-! ## New records -/

/-- A record without carrier is made. -/
theorem add (h : Depicts n W memory s) (cells : VarId → Option Datum) :
    Depicts n W (memory.add cells) s := by
  refine ⟨fun r k hr => Nat.lt_succ_of_lt (h.made r k hr), h.apart, ?_⟩
  intro r k hr
  rw [memory.add_cells_of_lt cells (h.made r k hr)]
  exact h.carrier r k hr

/-- The placement with one more carrier. -/
theorem extends_update (h : Depicts n W memory s) (k : Carrier) :
    W.Extends (Function.update W memory.next (some k)) := by
  intro r k' hr
  have hne : r ≠ memory.next := Nat.ne_of_lt (h.made r k' hr)
  simpa [hne] using hr

/-- A record is made whose carrier is a new object. -/
theorem addCarrier (h : Depicts n W memory s) {s' : Store} {cells : VarId → Option Datum} {object : Object}
    (hsame : ∀ (i : Nat) (object : Object), s.objects[i]? = some object → s'.objects[i]? = some object)
    (hnew : s.objects.size ≤ k.object.index) (hat : CarrierAt n s' k.decl l k.object object)
    (hholds : CarrierHolds n (Function.update W memory.next (some k)) cells k l object) :
    Depicts n (Function.update W memory.next (some k)) (memory.add cells) s' := by
  have hold : ∀ r k', W r = some k' → k'.object.index < s.objects.size := by
    intro r k' hr
    obtain ⟨_, _, hat', -⟩ := h.carrier r k' hr
    exact (Array.getElem?_eq_some_iff.1 hat'.object_eq).1
  have hcases : ∀ r k', Function.update W memory.next (some k) r = some k' →
      (r = memory.next ∧ k' = k) ∨ (r ≠ memory.next ∧ W r = some k') := by
    intro r k' hr
    by_cases heq : r = memory.next
    · subst heq
      simp only [Function.update_self, Option.some.injEq] at hr
      exact .inl ⟨rfl, hr.symm⟩
    · exact .inr ⟨heq, by simpa [heq] using hr⟩
  refine ⟨?_, ?_, ?_⟩
  · intro r k' hr
    rcases hcases r k' hr with ⟨rfl, -⟩ | ⟨-, hr⟩
    · simp
    · exact Nat.lt_succ_of_lt (h.made r k' hr)
  · intro r r' k₁ k₂ hr hr' heq
    rcases hcases r k₁ hr with ⟨rfl, rfl⟩ | ⟨-, hold₁⟩ <;>
      rcases hcases r' k₂ hr' with ⟨rfl, rfl⟩ | ⟨-, hold₂⟩
    · rfl
    · have := hold r' k₂ hold₂
      rw [← heq] at this
      omega
    · have := hold r k₁ hold₁
      rw [heq] at this
      omega
    · exact h.apart r r' k₁ k₂ hold₁ hold₂ heq
  · intro r k' hr
    rcases hcases r k' hr with ⟨rfl, rfl⟩ | ⟨-, hr⟩
    · rw [memory.add_cells_next]
      exact ⟨l, object, hat, hholds⟩
    · rw [memory.add_cells_of_lt cells (h.made r k' hr)]
      obtain ⟨l', object', hat', hholds'⟩ := h.carrier r k' hr
      exact ⟨l', object', ⟨hsame _ _ hat'.object_eq, hat'.layout_eq, hat'.struct_eq⟩,
        hholds'.extend (h.extends_update k)⟩

end Depicts

end StaticChain

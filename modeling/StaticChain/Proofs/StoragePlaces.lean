import StaticChain.Proofs.Prologue

/-!
# One storage place for each variable

While a function is active a variable of the program is either in a slot of a carrier or in a local of the
function. The layouts give every captured variable one slot, in the frame of its owner, and every field one, in
the instances of its aggregate (`Layouts.OnePlaceEach`). The prologue of a function gives a local to each variable
that is left, and different ones to different variables (`Scope.GivesLocals`). So no variable has two places and
no place has two variables (`storage_places`).
-/

namespace StaticChain

open Lir (ValueId LocalId Inst Ty FunctionBuilder)

/-! ## The slots of one layout -/

/-- The first slots of the layout hold these variables, in order. After them there is a link at most. -/
structure Layout.Holds (p : Program) (l : Layout) (kind : VarId → SlotKind) (xs : List VarId) : Prop where
  slot : ∀ {k x}, xs[k]? = some x → ∃ var slot, p.var? x = some var ∧ l.slotOf? x = some k ∧
    l.slots[k]? = some slot ∧ slot.kind = kind x ∧ var.ty.storage? = some slot.ty
  var : ∀ {k : Nat} {slot : Slot} {x}, l.slots[k]? = some slot → slot.kind.var? = some x → xs[k]? = some x
  link : ∀ {k}, l.linkSlot? = some k →
    l.slots.length = k + 1 ∧ l.slotType? k = some .ptr ∧ ∀ x, l.slotOf? x ≠ some k

namespace Layout

variable {p : Program} {l : Layout} {kind : VarId → SlotKind} {xs : List VarId} {slots : List Slot}

/-- Variables that have slots for them first, and perhaps a link behind them. -/
theorem holds_of_slots (hkind : ∀ x, (kind x).var? = some x) (hnodup : xs.Nodup)
    (hslots : List.Forall₂ (fun x slot => slotFor p kind x = .ok slot) xs slots) {linked : Bool} {link : Slot}
    (hlink : link.kind.var? = none) (hptr : link.ty = .ptr)
    (hl : l.slots = slots ++ if linked then [link] else [])
    (hlinked : l.linkSlot? = if linked then some slots.length else none) : l.Holds p kind xs := by
  have hvar : ∀ {k : Nat} {slot : Slot} {x : VarId}, l.slots[k]? = some slot → slot.kind.var? = some x →
      xs[k]? = some x := by
    intro k slot x hk hx
    rw [hl, List.getElem?_append] at hk
    split at hk
    · obtain ⟨y, -, hy, -, hkindy, -⟩ := Of.kind_of_lt hslots hk
      rw [hkindy, hkind] at hx
      cases hx
      exact hy
    · cases linked with
      | false => simp at hk
      | true =>
        obtain rfl := List.mem_singleton.1 (List.mem_of_getElem? hk)
        rw [hlink] at hx
        cases hx
  refine ⟨fun {k x} hk => ?_, hvar, fun {k} hk => ?_⟩
  · obtain ⟨slot, hslot, hfor⟩ := exists_getElem?_of_forall₂ hslots hk
    obtain ⟨var, hv, hkindx, hty⟩ := slotFor_eq_ok hfor
    have hget : l.slots[k]? = some slot := by
      rw [hl, List.getElem?_append_left (List.getElem?_eq_some_iff.1 hslot).1, hslot]
    have hrest : ∀ slot ∈ (if linked then [link] else []), slot.kind.var? = none := by
      cases linked <;> simp [hlink]
    obtain ⟨i, -, hi, -⟩ := exists_slot hkind hslots hrest (List.mem_of_getElem? hk) hv hl
    obtain ⟨found, hfound, hx⟩ := kind_of_slotOf? hi
    -- The slot that is found holds the variable, which stands at one place only.
    have hki : k = i := (List.getElem?_inj (List.getElem?_eq_some_iff.1 hk).1 hnodup).1
      (hk.trans (hvar hfound hx).symm)
    exact ⟨var, slot, hv, hki ▸ hi, hget, hkindx, hty⟩
  · rw [hlinked] at hk
    cases linked with
    | false => cases hk
    | true =>
      obtain rfl : slots.length = k := by simpa using hk
      have hget : l.slots[slots.length]? = some link := by simp [hl]
      refine ⟨by simp [hl], by simp [slotType?, hget, hptr], fun x hx => ?_⟩
      obtain ⟨found, hfound, hfoundx⟩ := kind_of_slotOf? hx
      cases hget.symm.trans hfound
      rw [hlink] at hfoundx
      cases hfoundx

end Layout

/-! ## All layouts -/

namespace Layouts

/-- The slot of the layout at the number holds the variable. -/
def HoldsAt (ls : Layouts) (struct slot : Nat) (x : VarId) : Prop :=
  ∃ l found, ls.layouts[struct]? = some l ∧ l.slots[slot]? = some found ∧ found.kind.var? = some x

/-- The variable has a slot of its storage type in the carrier of its owner, and there is no other slot for it. -/
def HasOnePlace (ls : Layouts) (x : VarId) (var : Variable) (kind : Layout.SlotKind) : Prop :=
  ∃ l k slot, ls.layout? var.owner = some l ∧ l.slotOf? x = some k ∧ l.slots[k]? = some slot ∧
    slot.kind = kind ∧ var.ty.storage? = some slot.ty ∧ ∀ i j, ls.HoldsAt i j x ↔ i = l.struct.index ∧ j = k

/-- There is one layout for each carrier, and one slot for each captured variable and each field. -/
structure OnePlaceEach (p : Program) (c : Captures) (ls : Layouts) : Prop where
  owners_eq : ls.layouts.toList.map Layout.owner = p.preorder.filter (c.isCarrier p)
  owners_nodup : (ls.layouts.toList.map Layout.owner).Nodup
  /-- A layout stands at its number and is the one that is found for its owner. -/
  numbered : ∀ {i : Nat} {l}, ls.layouts[i]? = some l →
    l.struct = ⟨i⟩ ∧ ls.layout? l.owner = some l ∧ ls.byStruct? ⟨i⟩ = some l
  exists_layout : ∀ {id}, c.isCarrier p id = true → ∃ l, ls.layout? id = some l
  frame : ∀ {id decl function l}, p.decl? id = some decl → decl.kind = .function function →
    ls.layout? id = some l → l.Holds p .captured (decl.locals.filter c.isCaptured) ∧
      (l.parentSlot.isSome = true ↔ ∃ parent, p.parent? id = some parent) ∧ l.outerSlot = none
  instance_of : ∀ {id aggregate l}, p.aggregate? id = some aggregate → ls.layout? id = some l →
    l.Holds p .field aggregate.fields ∧ (l.outerSlot.isSome = true ↔ c.needsOuter id = true) ∧ l.parentSlot = none
  captured : ∀ {x}, c.isCaptured x = true → ∃ var, p.var? x = some var ∧ p.isFunction var.owner = true ∧
    ls.HasOnePlace x var (.captured x)
  field : ∀ {x var}, p.var? x = some var → var.kind = .field → p.isAggregate var.owner = true ∧
    ls.HasOnePlace x var (.field x)
  /-- No other variable has a slot. -/
  only : ∀ {i j x}, ls.HoldsAt i j x → c.isCaptured x = true ∨ ∃ var, p.var? x = some var ∧ var.kind = .field

/-- Where no carrier has two layouts, each layout is the one that is found for its owner. -/
theorem layout?_of_mem {ls : Layouts} (hnodup : (ls.layouts.toList.map Layout.owner).Nodup) {l : Layout}
    (hl : l ∈ ls.layouts.toList) : ls.layout? l.owner = some l := by
  unfold layout?
  cases hfind : ls.layouts.toList.reverse.find? (·.owner == l.owner) with
  | none =>
    have := List.find?_eq_none.1 hfind l (List.mem_reverse.2 hl)
    simp at this
  | some found =>
    have howner : found.owner = l.owner := by simpa using List.find?_some hfind
    have hmem := List.mem_reverse.1 (List.mem_of_find?_eq_some hfind)
    rw [List.inj_on_of_nodup_map hnodup hmem hl howner]

end Layouts

namespace Nesting.Built

variable {n : Nesting} {policy : FramePolicy} (hn : n.Built policy)
include hn

theorem holds_frame {id : DeclId} {decl : Declaration} {function : FunctionDecl} {l : Layout}
    (hd : n.program.decl? id = some decl) (hk : decl.kind = .function function)
    (hl : n.layouts.layout? id = some l) :
    l.Holds n.program .captured (decl.locals.filter n.captures.isCaptured) ∧
      (l.parentSlot.isSome = true ↔ ∃ parent, n.program.parent? id = some parent) ∧ l.outerSlot = none := by
  have hof := hn.layout_of hl
  generalize l.struct = struct at hof
  cases hof with
  | @frame decl' _ summary slots hd' _ hs _ hslots =>
    cases Option.some.inj (hd.symm.trans hd')
    have hsum : summary.captured = decl.locals.filter n.captures.isCaptured := by
      simpa [hs] using hn.exact.captured_eq hd
    rw [← hsum]
    refine ⟨Layout.holds_of_slots (fun _ => rfl) ?_ hslots rfl rfl rfl (by simp [Layout.linkSlot?]), ?_, rfl⟩
    · rw [hsum]
      exact (hn.checked.locals_nodup_of hd).filter _
    · cases hpar : decl.parent <;> simp [Program.parent?, hd, hpar]
  | aggregate hd' hk' =>
    cases Option.some.inj (hd.symm.trans hd')
    cases hk.symm.trans hk'

theorem holds_instance {id : DeclId} {aggregate : AggregateDecl} {l : Layout}
    (ha : n.program.aggregate? id = some aggregate) (hl : n.layouts.layout? id = some l) :
    l.Holds n.program .field aggregate.fields ∧
      (l.outerSlot.isSome = true ↔ n.captures.needsOuter id = true) ∧ l.parentSlot = none := by
  obtain ⟨decl, hd, hk⟩ := Program.aggregate?_eq_some_iff.1 ha
  have hof := hn.layout_of hl
  generalize l.struct = struct at hof
  cases hof with
  | frame hd' hk' =>
    cases Option.some.inj (hd.symm.trans hd')
    cases hk.symm.trans hk'
  | @aggregate decl' aggregate' summary slots hd' hk' hs hslots =>
    cases Option.some.inj (hd.symm.trans hd')
    cases hk.symm.trans hk'
    refine ⟨Layout.holds_of_slots (fun _ => rfl) ?_ hslots rfl rfl rfl (by simp [Layout.linkSlot?]), ?_, rfl⟩
    · rw [hn.checked.fields_eq hd hk]
      exact hn.checked.locals_nodup_of hd
    · cases houter : summary.needsOuter <;> simp [Captures.needsOuter, hs, houter]

/-- A slot that holds a variable is in the carrier of the variable's owner. -/
theorem owner_of_slot {id : DeclId} {l : Layout} (hl : n.layouts.layout? id = some l) {k : Nat}
    {slot : Layout.Slot} (hslot : l.slots[k]? = some slot) {x : VarId} (hx : slot.kind.var? = some x) :
    ∃ var, n.program.var? x = some var ∧ var.owner = id ∧
      (n.captures.isCaptured x = true ∨ var.kind = .field) := by
  have hp := hn.checked
  obtain ⟨decl, hd⟩ : ∃ decl, n.program.decl? id = some decl := by
    have hof := hn.layout_of hl
    generalize l.struct = struct at hof
    cases hof <;> exact ⟨_, ‹_›⟩
  cases hk : decl.kind with
  | function function =>
    have hmem := List.mem_of_getElem? ((hn.holds_frame hd hk hl).1.var hslot hx)
    obtain ⟨hmem, hcap⟩ := List.mem_filter.1 hmem
    obtain ⟨var, hv, howner⟩ := hp.local_owner hd hmem
    exact ⟨var, hv, howner, .inl hcap⟩
  | aggregate aggregate =>
    have hmem := List.mem_of_getElem?
      ((hn.holds_instance (Program.aggregate?_eq_some_iff.2 ⟨decl, hd, hk⟩) hl).1.var hslot hx)
    rw [hp.fields_eq hd hk] at hmem
    obtain ⟨var, hv, howner⟩ := hp.local_owner hd hmem
    exact ⟨var, hv, howner, .inr (hp.field_kind hd hk hmem hv)⟩

/-- A variable of a carrier has one slot in it, if it is among those that the carrier holds. -/
theorem hasOnePlace (hnodup : (n.layouts.layouts.toList.map Layout.owner).Nodup) {x : VarId} {var : Variable}
    (hv : n.program.var? x = some var) {l : Layout} (hl : n.layouts.layout? var.owner = some l)
    {kind : VarId → Layout.SlotKind} (hkind : (kind x).var? = some x) {xs : List VarId} (hxs : xs.Nodup)
    (hholds : l.Holds n.program kind xs) (hx : x ∈ xs) : n.layouts.HasOnePlace x var (kind x) := by
  have hindexed := Layouts.indexed_of hn.checked hn.layouts_eq
  obtain ⟨k, hk⟩ := List.mem_iff_getElem?.1 hx
  obtain ⟨var', slot, hv', hslotOf, hslot, hslotKind, hty⟩ := hholds.slot hk
  cases Option.some.inj (hv.symm.trans hv')
  refine ⟨l, k, slot, hl, hslotOf, hslot, hslotKind, hty, fun i j => ⟨?_, ?_⟩⟩
  · rintro ⟨l', found, hl', hfound, hfoundx⟩
    have hfind := Layouts.layout?_of_mem hnodup (List.mem_of_getElem? (by simpa using hl'))
    obtain ⟨var', hv', howner, -⟩ := hn.owner_of_slot hfind hfound hfoundx
    cases Option.some.inj (hv.symm.trans hv')
    rw [← howner, hl] at hfind
    cases hfind
    refine ⟨by rw [(hindexed i l hl').struct_eq], ?_⟩
    exact (List.getElem?_inj (List.getElem?_eq_some_iff.1 (hholds.var hfound hfoundx)).1 hxs).1
      ((hholds.var hfound hfoundx).trans hk.symm)
  · rintro ⟨rfl, rfl⟩
    exact ⟨l, slot, hn.byStruct?_eq hl, hslot, by rw [hslotKind, hkind]⟩

theorem onePlaceEach (hc : n.program.ChildrenDistinct) : n.layouts.OnePlaceEach n.program n.captures := by
  have hp := hn.checked
  have howners := Layouts.owners_of hp hn.layouts_eq
  have hnodup : (n.layouts.layouts.toList.map Layout.owner).Nodup := by
    rw [howners]
    exact (hp.preorder_nodup hc).filter _
  have hfind : ∀ {i : Nat} {l : Layout}, n.layouts.layouts[i]? = some l → n.layouts.layout? l.owner = some l :=
    fun hl => Layouts.layout?_of_mem hnodup (List.mem_of_getElem? (by simpa using hl))
  refine {
    owners_eq := howners
    owners_nodup := hnodup
    numbered := fun {i l} hl => ⟨?_, hfind hl, hl⟩
    exists_layout := hn.exists_layout
    frame := hn.holds_frame
    instance_of := hn.holds_instance
    captured := fun {x} hcap => ?_
    field := fun {x var} hv hfield => ?_
    only := ?_ }
  · exact (Layouts.indexed_of hp hn.layouts_eq i l hl).struct_eq
  · obtain ⟨var, -, hv, hkind, -⟩ := (hn.exact.isCaptured_iff x).1 hcap
    have hfun := hp.isFunction_owner hv hkind
    obtain ⟨decl, hd, hmem⟩ := hp.exists_owner hv
    obtain ⟨function, hf⟩ := Program.isFunction_iff.1 hfun
    obtain ⟨decl', hd', hk⟩ := Program.function?_eq_some_iff.1 hf
    cases Option.some.inj (hd.symm.trans hd')
    have hcarrier : n.captures.isCarrier n.program var.owner = true := by
      rw [Captures.isCarrier, hn.isFrameNeeded_of_isCaptured hd hk hmem hcap, Bool.or_true]
    obtain ⟨l, hl⟩ := hn.exists_layout hcarrier
    exact ⟨var, hv, hfun, hn.hasOnePlace hnodup hv hl rfl ((hp.locals_nodup_of hd).filter _)
      (hn.holds_frame hd hk hl).1 (List.mem_filter.2 ⟨hmem, hcap⟩)⟩
  · have hagg := hp.isAggregate_owner hv hfield
    obtain ⟨decl, hd, hmem⟩ := hp.exists_owner hv
    obtain ⟨aggregate, ha⟩ := Program.isAggregate_iff.1 hagg
    obtain ⟨decl', hd', hk⟩ := Program.aggregate?_eq_some_iff.1 ha
    cases Option.some.inj (hd.symm.trans hd')
    obtain ⟨l, hl⟩ := hn.exists_layout (by rw [Captures.isCarrier, hagg, Bool.true_or])
    have hfields := hp.fields_eq hd hk
    exact ⟨hagg, hn.hasOnePlace hnodup hv hl rfl (hfields ▸ hp.locals_nodup_of hd) (hn.holds_instance ha hl).1
      (hfields ▸ hmem)⟩
  · rintro i j x ⟨l, found, hl, hfound, hx⟩
    obtain ⟨var, hv, -, h⟩ := hn.owner_of_slot (hfind hl) hfound hx
    exact h.imp_right fun hfield => ⟨var, hv, hfield⟩

end Nesting.Built

/-! ## The locals of a function -/

/-- While the body of a function is lowered, its variables that are not captured have locals of their storage
types, each its own, and no other variable has one. -/
structure Scope.GivesLocals (t : Scope) (p : Program) (c : Captures) (decl : Declaration) (b : FunctionBuilder) :
    Prop where
  domain : ∀ x, (∃ l, t.locals.lookup x = some l) ↔ x ∈ decl.locals ∧ c.isCaptured x = false
  injective : ∀ {x y l}, t.locals.lookup x = some l → t.locals.lookup y = some l → x = y
  storage : ∀ {x l}, t.locals.lookup x = some l → ∃ var ty, p.var? x = some var ∧ var.ty.storage? = some ty ∧
    b.function.locals[l.index]? = some ty

theorem Scope.Enters.givesLocals {s t : Scope} {id : DeclId} {b : FunctionBuilder} (h : s.Enters id t b)
    (hp : s.nesting.program.Checked) {decl : Declaration} (hd : s.nesting.program.decl? id = some decl) :
    t.GivesLocals s.nesting.program s.nesting.captures decl b := by
  obtain ⟨v, -, -, -, htyped⟩ := h.typed
  obtain ⟨decl', function, params, incoming, arrived, paramLocals, bodyLocals, v, σ₁, σ₂, σ₃, c₁, c₂, c₃, hd', hk,
    hparams, hincoming, hparamsCode, hlocals, henter, rfl⟩ := h.code
  cases Option.some.inj (hd.symm.trans hd')
  obtain ⟨rest, hrest⟩ := hp.params_prefix hd hk
  rw [← hrest, List.drop_left] at hlocals
  have hplaces := BodyLocals.of_prologue hparams hincoming hparamsCode hlocals
  refine ⟨fun x => ⟨?_, ?_⟩, fun {x y l} hx hy => hplaces.inj x y l (mem_of_lookup hx) (mem_of_lookup hy),
    fun {x l} hl => ?_⟩
  · rintro ⟨l, hl⟩
    exact ⟨hrest ▸ hplaces.mem (mem_of_lookup hl), (hplaces.place x l (mem_of_lookup hl)).1⟩
  · rintro ⟨hx, hcap⟩
    obtain ⟨l, hl⟩ := hplaces.bound x (hrest.symm ▸ hx) hcap
    exact exists_lookup_of_mem hl
  · obtain ⟨var, hv, -⟩ := hp.local_owner hd (hrest ▸ hplaces.mem (mem_of_lookup hl))
    obtain ⟨ty, hty⟩ := hp.exists_storage hv
    exact ⟨var, ty, hv, hty, htyped.locals x l hl ty ⟨var, hv, hty⟩⟩

/-- The locals that are there before the body stay the first ones of the function. -/
theorem Scope.Enters.locals_isPrefix {s t : Scope} {id : DeclId} {b : FunctionBuilder} (h : s.Enters id t b)
    {f : Lir.Function} (hf : (s.lowerFunction id).1 = .ok f) :
    b.function.locals.toList <+: f.locals.toList := by
  obtain ⟨function, hfunction⟩ := h.exists_function
  obtain ⟨v, hv, -⟩ := h.typed
  rw [h.lowerFunction_eq hfunction] at hf
  split at hf
  · cases hf
  · rename_i b' hrun
    obtain ⟨code, σ, hcode, rfl⟩ := gives_lowerBody hv hrun
    unfold Lir.FunctionBuilder.finish at hf
    split at hf
    · cases hf
      exact hcode.le.locals_start
    · cases hf

/-- Every variable of a program has one storage place. If the check accepts the program, no list of children has
one twice and the captures are found, then the layouts can be made; there is one for each carrier, a slot for each
captured variable and each field in the carrier of its owner, and nothing else but links. In whatever scope over
the tables a function is lowered, the rest of its variables have locals, each its own. -/
theorem storage_places {p : Program} (hp : p.check = .ok ()) (hc : p.ChildrenDistinct) {c : Captures}
    (hcaptures : Captures.of p = .ok c) :
    (∃ ls, Layouts.of p c = .ok ls ∧ ls.OnePlaceEach p c) ∧
    ∀ {policy n}, Nesting.of p policy = .ok n → ∀ {id decl function}, p.decl? id = some decl →
      decl.kind = .function function → (∃ t b, n.scope.Enters id t b) ∧
        ∀ {s t : Scope} {b}, s.nesting = n → s.Enters id t b → (s.lowerFunction id).2 = t ∧ t.GivesLocals p c decl b ∧
          ∀ f, (s.lowerFunction id).1 = .ok f → b.function.locals.toList <+: f.locals.toList := by
  have hchecked := Program.checked_of_check hp
  constructor
  · obtain ⟨n, hn, rfl⟩ := Nesting.exists_of hchecked hcaptures .alwaysHeap
    obtain ⟨rfl, hbuilt⟩ := Nesting.built_of_eq_ok hchecked hn
    exact ⟨n.layouts, hbuilt.layouts_eq, hbuilt.onePlaceEach hc⟩
  · intro policy n hn id decl function hd hk
    obtain ⟨rfl, hbuilt⟩ := Nesting.built_of_eq_ok hchecked hn
    cases Except.ok.inj (hbuilt.captures_eq.symm.trans hcaptures)
    constructor
    · obtain ⟨t, b, -, henters, -⟩ := Scope.exists_enters (n.scope_nesting.symm ▸ hbuilt)
        (hbuilt.exists_function? hc) (show n.scope.nesting.program.function? id = some function by
          rw [n.scope_nesting]
          exact Program.function?_eq_some_iff.2 ⟨decl, hd, hk⟩)
      exact ⟨t, b, henters⟩
    · rintro s t b rfl h
      exact ⟨h.snd_lowerFunction, h.givesLocals hchecked hd, fun f hf => h.locals_isPrefix hf⟩

/-- In the function that keeps the running total, the total is in the frame and the number it starts from in a
local. -/
theorem storage_places_tally : ∃ c ls, Captures.of tally = .ok c ∧ Layouts.of tally c = .ok ls ∧
    ls.OnePlaceEach tally c ∧ ls.layouts.size = 2 ∧ (∃ var, ls.HasOnePlace ⟨1⟩ var (.captured ⟨1⟩)) ∧
    ∃ n t b x, Nesting.of tally .escapeAnalysis = .ok n ∧ n.scope.Enters ⟨0⟩ t b ∧
      t.locals.lookup ⟨0⟩ = some x ∧ b.function.locals[x.index]? = some .i64 ∧ t.locals.lookup ⟨1⟩ = none := by
  obtain ⟨c, hc⟩ := exists_of_isOk (show (Captures.of tally).isOk = true by decide +kernel)
  obtain ⟨n, hn⟩ := exists_of_isOk (show (Nesting.of tally .escapeAnalysis).isOk = true by decide +kernel)
  obtain ⟨⟨ls, hls, hplaces⟩, hlocals⟩ := storage_places tally_check tally_childrenDistinct hc
  obtain ⟨⟨t, b, hb⟩, hgives⟩ := hlocals hn (show tally.decl? ⟨0⟩ = some _ from rfl) rfl
  obtain ⟨-, hgives, -⟩ := hgives n.scope_nesting hb
  have hfound : (Captures.of tally).toOption.any (fun c => !c.isCaptured ⟨0⟩ && c.isCaptured ⟨1⟩ &&
      (tally.preorder.filter (c.isCarrier tally)).length == 2) = true := by
    decide +kernel
  simp only [hc, Except.toOption, Option.any_some, Bool.and_eq_true, Bool.not_eq_true', beq_iff_eq] at hfound
  obtain ⟨⟨hstart, htotal⟩, hcarriers⟩ := hfound
  have hsize : ls.layouts.size = 2 := by
    rw [← hcarriers, ← hplaces.owners_eq, List.length_map, Array.length_toList]
  obtain ⟨x, hx⟩ := (hgives.domain ⟨0⟩).2 ⟨by decide, hstart⟩
  obtain ⟨var, ty, hv, hty, hget⟩ := hgives.storage hx
  cases hv
  cases hty
  obtain ⟨var, -, -, hplace⟩ := hplaces.captured htotal
  refine ⟨c, ls, hc, hls, hplaces, hsize, ⟨var, hplace⟩, n, t, b, x, hn, hb, hx, hget, ?_⟩
  refine Option.eq_none_iff_forall_ne_some.2 fun l hl => ?_
  have hnot := ((hgives.domain ⟨1⟩).1 ⟨l, hl⟩).2
  rw [htotal] at hnot
  cases hnot

end StaticChain

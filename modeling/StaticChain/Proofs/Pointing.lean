import StaticChain.Proofs.Effects
import StaticChain.Proofs.OpenBlocks

/-!
# What values point to

In a type-correct program the roles of values and locals say exactly what is in them (`InRole`): the value
of a type, a pointer to the carrier of a declaration, null where there is none, or the address of a slot of
such a carrier. The same holds of the slots of objects (`Filled`). A carrier has its link from the store
after its allocation on: all objects of a call are linked, except the one that the active activation is
just making (`LinksSet`).

`Typed` is the invariant of a running call. It holds of both allocation policies, since it says nothing
about which objects were released.
-/

namespace StaticChain

open Lir (ValueId LocalId FunctionId StructId AllocKind Inst Ty)
open Machine

/-- Objects keep their struct types. -/
def Machine.Store.Grows (s s' : Store) : Prop :=
  ∀ (o : ObjectId) (object : Object), s.objects[o.index]? = some object →
    ∃ object', s'.objects[o.index]? = some object' ∧ object'.struct = object.struct

/-- The object is a carrier of the declaration, with its layout. -/
structure CarrierAt (n : Nesting) (s : Store) (owner : DeclId) (l : Layout) (o : ObjectId)
    (object : Object) : Prop where
  object_eq : s.objects[o.index]? = some object
  layout_eq : n.layouts.layout? owner = some l
  struct_eq : object.struct = l.struct

/-- The value points to the carrier, or is null where there is none. -/
def PointsTo (n : Nesting) (s : Store) : Option DeclId → Value → Prop
  | none, v => v = .null
  | some owner, v => ∃ o l object, v = .object o ∧ CarrierAt n s owner l o object

/-- The value has the type. -/
def OfType (n : Nesting) (s : Store) : ValueType → Value → Prop
  | .unit, _ => True
  | .int, v => ∃ x, v = .int x
  | .bool, v => ∃ x, v = .int x
  | .instanceOf aggregate, v => PointsTo n s (some aggregate) v
  | .function params ret, v => ∃ target context id function, v = .closure target context ∧
    n.scope.function? id = some target ∧ n.program.function? id = some function ∧
    params = function.params.map n.program.varType ∧ ret = function.returnType ∧
    PointsTo n s (n.above id) (.ofContext context)

/-- The value is what the role says. -/
def InRole (n : Nesting) (s : Store) : Role → Value → Prop
  | .value ty, v => OfType n s ty v
  | .context carrier, v => PointsTo n s carrier v
  | .address owner slot, v => ∃ o l object, v = .slot o slot ∧ CarrierAt n s owner l o object

/-- The slots of all objects hold what their roles say. -/
structure Filled (n : Nesting) (s : Store) : Prop where
  size : ∀ owner l o object, CarrierAt n s owner l o object → object.slots.size = l.slots.length
  slot : ∀ owner l o object k v role, CarrierAt n s owner l o object →
    object.slots[k]? = some (some v) → n.slotRole? owner k = some role → InRole n s role v

/-- The objects from a number on have their links, but for one that is being made. -/
def LinksSet (n : Nesting) (base : Nat) (s : Store) (making : Option ObjectId) : Prop :=
  ∀ owner l o object k, base ≤ o.index → making ≠ some o → CarrierAt n s owner l o object →
    l.linkSlot? = some k → ∃ v, object.slots[k]? = some (some v)

/-- The newest object, of which no slot is set. -/
structure Fresh (n : Nesting) (base : Nat) (s : Store) (struct : StructId) (o : ObjectId) : Prop where
  links : LinksSet n base s (some o)
  struct_eq : ∀ (object : Object), s.objects[o.index]? = some object → object.struct = struct
  newest : o.index + 1 = s.objects.size
  unset : ∀ (object : Object) (k : Nat) (v : Value), s.objects[o.index]? = some object → object.slots[k]? ≠ some (some v)

/-- The values and locals of an activation are what their roles say, and its context is set. -/
structure ActivationTyped (n : Nesting) (s : Store) (Γ : Roles) (id : DeclId)
    (function : FunctionDecl) (a : Activation) : Prop where
  lowered : n.LoweredTo id a.function
  roles : ∀ scope v, n.scope.lowerFunction id = (.ok a.function, scope) → scope.current = some v →
    FunctionRoles n True id function v a.function Γ
  value : ∀ r v, a.value r = .ok v → InRole n s (Γ.ofValue r) v
  «local» : ∀ x v, a.local x = .ok v → InRole n s (Γ.ofLocal x) v
  context : a.function.hasContext = true → ∃ v, a.local ⟨0⟩ = .ok v

/-- The activations that wait are typed, and have a place for the result that they wait for. -/
def WaitingTyped (n : Nesting) (s : Store) : Option ValueId → ValueType → List Activation → Prop
  | _, _, [] => True
  | dest, ret, a :: rest => ∃ Γ id function, ActivationTyped n s Γ id function a ∧
    BlocksOk n True function.returnType Γ a.blocks ∧ (∀ d, dest = some d → Γ.ofValue d = .value ret) ∧
    WaitingTyped n s a.dest function.returnType rest

/-- What holds of a running call, apart from where the active activation is in its code. -/
structure TypedBy (n : Nesting) (s : Store) (waiting : List Activation) (Γ : Roles) (id : DeclId)
    (function : FunctionDecl) (a : Activation) : Prop where
  filled : Filled n s
  active : ActivationTyped n s Γ id function a
  waiting : WaitingTyped n s a.dest function.returnType waiting

/-- What holds of a running call. The objects of earlier calls end at `base`. -/
def Typed (n : Nesting) (base : Nat) (s : State) : Prop :=
  ∃ Γ id function, TypedBy n s.store s.callers.waiting Γ id function s.active ∧
    Doing n True function.returnType Γ s.active (LinksSet n base s.store none)
      (fun struct _ o => Fresh n base s.store struct o) s.active.blocks

/-! ## Growing stores -/

section

variable {n : Nesting} {policy : FramePolicy} {s s' : Store} {owner : DeclId} {l : Layout}
  {o : ObjectId} {object : Object}

theorem CarrierAt.grow (h : CarrierAt n s owner l o object) (hg : s.Grows s') :
    ∃ object', CarrierAt n s' owner l o object' := by
  obtain ⟨object', ho', hstruct⟩ := hg o object h.object_eq
  exact ⟨object', ho', h.layout_eq, hstruct.trans h.struct_eq⟩

/-- An object is a carrier of one declaration. -/
theorem CarrierAt.unique (hn : n.Built policy) {owner' : DeclId} {l' : Layout} {object' : Object}
    (h : CarrierAt n s owner l o object) (h' : CarrierAt n s owner' l' o object') :
    owner = owner' ∧ l = l' ∧ object = object' := by
  have hobj : object = object' := by
    have := h.object_eq
    rw [h'.object_eq] at this
    exact (Option.some.inj this).symm
  subst hobj
  obtain ⟨hl, howner⟩ := hn.layout_eq_of_struct_eq h.layout_eq h'.layout_eq
    (h.struct_eq.symm.trans h'.struct_eq)
  exact ⟨howner, hl, rfl⟩

theorem PointsTo.grow {carrier : Option DeclId} {v : Value} (h : PointsTo n s carrier v)
    (hg : s.Grows s') : PointsTo n s' carrier v := by
  cases carrier with
  | none => exact h
  | some owner =>
    obtain ⟨o, l, object, hv, hat⟩ := h
    obtain ⟨object', hat'⟩ := hat.grow hg
    exact ⟨o, l, object', hv, hat'⟩

theorem OfType.grow {ty : ValueType} {v : Value} (h : OfType n s ty v) (hg : s.Grows s') :
    OfType n s' ty v := by
  cases ty with
  | instanceOf aggregate => exact (show PointsTo n s (some aggregate) v from h).grow hg
  | function params ret =>
    obtain ⟨target, context, id, function, hv, ht, hf, hp, hr, hc⟩ := h
    exact ⟨target, context, id, function, hv, ht, hf, hp, hr, hc.grow hg⟩
  | _ => exact h

theorem InRole.grow {role : Role} {v : Value} (h : InRole n s role v) (hg : s.Grows s') :
    InRole n s' role v := by
  cases role with
  | value ty => exact OfType.grow h hg
  | context carrier => exact PointsTo.grow h hg
  | address owner slot =>
    obtain ⟨o, l, object, hv, hat⟩ := h
    obtain ⟨object', hat'⟩ := hat.grow hg
    exact ⟨o, l, object', hv, hat'⟩

theorem ofType_of_isScalar {s : Store} {ty : ValueType} {v : Value} (h : ty.IsScalar) :
    OfType n s ty v ↔ ∃ x, v = .int x := by
  rcases h with rfl | rfl <;> rfl

/-- What fits a role is in it. -/
theorem InRole.of_fits {role role' : Role} {v : Value} (h : InRole n s role v)
    (hf : role.Fits n True role') : InRole n s role' v := by
  rcases hf with rfl | ⟨hvalue, haddr, hsame⟩
  · exact h
  obtain ⟨t, t', ht, ht', heq⟩ := hsame trivial
  have htyped : OfType n s t v := by
    cases role with
    | value ty =>
      cases ht
      exact h
    | context carrier =>
      cases carrier with
      | none => cases ht
      | some aggregate =>
        cases ht
        exact h
    | address owner slot => cases ht
  have htyped' : OfType n s t' v := by
    rcases heq with rfl | ⟨hscalar, hscalar'⟩
    · exact htyped
    · exact (ofType_of_isScalar hscalar').2 ((ofType_of_isScalar hscalar).1 htyped)
  cases role' with
  | value ty =>
    cases ht'
    exact htyped'
  | context carrier =>
    cases carrier with
    | none => cases ht'
    | some aggregate =>
      cases ht'
      exact htyped'
  | address owner slot => exact absurd trivial haddr

theorem ActivationTyped.grow {Γ : Roles} {id : DeclId} {function : FunctionDecl} {a : Activation}
    (h : ActivationTyped n s Γ id function a) (hg : s.Grows s') :
    ActivationTyped n s' Γ id function a :=
  ⟨h.lowered, h.roles, fun r v hv => (h.value r v hv).grow hg,
    fun x v hv => (h.local x v hv).grow hg, h.context⟩

theorem WaitingTyped.grow {dest : Option ValueId} {ret : ValueType} {waiting : List Activation}
    (h : WaitingTyped n s dest ret waiting) (hg : s.Grows s') : WaitingTyped n s' dest ret waiting := by
  induction waiting generalizing dest ret with
  | nil => trivial
  | cons a rest ih =>
    obtain ⟨Γ, id, function, ha, hb, hdest, hrest⟩ := h
    exact ⟨Γ, id, function, ha.grow hg, hb, hdest, ih hrest⟩

theorem Machine.Store.grows_allocate (s : Store) (struct : StructId) (kind : AllocKind) (slots : Nat) :
    s.Grows (s.allocate struct kind slots) := by
  intro o object ho
  have hlt : o.index < s.objects.size := (Array.getElem?_eq_some_iff.1 ho).1
  exact ⟨object, by rw [Store.get?_allocate, if_neg (by omega), ho], rfl⟩

theorem Machine.Store.grows_set (s : Store) (o : ObjectId) (k : Nat) (v : Value) :
    s.Grows (s.set o k v) := by
  intro o' object ho
  rw [Store.get?_set, ho]
  split
  · exact ⟨_, rfl, rfl⟩
  · exact ⟨_, rfl, rfl⟩

theorem Machine.Store.grows_releaseAll (s : Store) (ids : List ObjectId) :
    s.Grows (s.releaseAll ids) := by
  intro o' object ho
  rw [Store.get?_releaseAll, ho]
  split
  · exact ⟨_, rfl, rfl⟩
  · exact ⟨_, rfl, rfl⟩

end

/-! ## Stores that change -/

section

variable {n : Nesting} {policy : FramePolicy} {m : Lir.Module} {s : Store} {owner : DeclId} {l : Layout}
  {o : ObjectId} {object : Object} {base : Nat}

/-- The struct type of a layout has as many slots as the layout. -/
theorem Nesting.Lowers.struct_length (hm : n.Lowers policy m) (hl : n.layouts.layout? owner = some l)
    {layout : Lir.StructType} (h : m.struct? l.struct = some layout) :
    layout.slots.length = l.slots.length := by
  have hby := hm.built.byStruct?_eq hl
  simp only [Lir.Module.struct?, hm.structs_eq, Layouts.structs, Array.getElem?_map] at h
  rw [show n.layouts.layouts[l.struct.index]? = some l from hby] at h
  cases h
  simp [Layout.toStruct]

/-- A carrier that is found after an allocation is the new object or was there before. -/
theorem carrierAt_allocate {struct : StructId} {kind : AllocKind} {slots : Nat}
    (h : CarrierAt n (s.allocate struct kind slots) owner l o object) :
    (o = s.next ∧ l.struct = struct ∧ object = ⟨struct, kind, Array.replicate slots none, true⟩) ∨
      CarrierAt n s owner l o object := by
  obtain ⟨ho, hl, hstruct⟩ := h
  rw [Store.get?_allocate] at ho
  split at ho
  · rename_i heq
    cases ho
    exact .inl ⟨congrArg ObjectId.mk heq, hstruct.symm, rfl⟩
  · exact .inr ⟨ho, hl, hstruct⟩

theorem Filled.allocate (hm : n.Lowers policy m) (h : Filled n s) {struct : StructId} (kind : AllocKind)
    {layout : Lir.StructType} (hlayout : m.struct? struct = some layout) :
    Filled n (s.allocate struct kind layout.slots.length) := by
  constructor
  · intro owner l o object hat
    rcases carrierAt_allocate hat with ⟨-, hstruct, hobj⟩ | hold
    · subst hstruct
      rw [hobj]
      simpa using hm.struct_length hat.layout_eq hlayout
    · exact h.size owner l o object hold
  · intro owner l o object k v role hat hv hrole
    have hold := Store.slot_of_allocate hat.object_eq hv
    exact (h.slot owner l o object k v role ⟨hold, hat.layout_eq, hat.struct_eq⟩ hv hrole).grow
      (s.grows_allocate _ _ _)

/-- A carrier that is found after a write was there before, with the slots that were set. -/
theorem carrierAt_set {o' : ObjectId} {k : Nat} {v : Value}
    (h : CarrierAt n (s.set o' k v) owner l o object) :
    ∃ old, CarrierAt n s owner l o old ∧ old.slots.size = object.slots.size ∧
      ∀ (j : Nat) (w : Value), old.slots[j]? = some (some w) → ∃ w, object.slots[j]? = some (some w) := by
  obtain ⟨ho, hl, hstruct⟩ := h
  rw [Store.get?_set] at ho
  split at ho
  · obtain ⟨old, hold, rfl⟩ := Option.map_eq_some_iff.1 ho
    refine ⟨old, ⟨hold, hl, hstruct⟩, by simp, ?_⟩
    intro j w hw
    have hlt : j < old.slots.size := (Array.getElem?_eq_some_iff.1 hw).1
    simp only [Array.getElem?_setIfInBounds]
    split
    · rename_i heq
      subst heq
      exact ⟨v, by simp [hlt]⟩
    · exact ⟨w, hw⟩
  · exact ⟨object, ⟨ho, hl, hstruct⟩, rfl, fun j w hw => ⟨w, hw⟩⟩

theorem Filled.set (h : Filled n s) {k : Nat} {v : Value}
    (hv : ∀ owner l object role, CarrierAt n s owner l o object → n.slotRole? owner k = some role →
      InRole n s role v) : Filled n (s.set o k v) := by
  constructor
  · intro owner l o' object hat
    obtain ⟨old, hold, hsize, -⟩ := carrierAt_set hat
    rw [← hsize]
    exact h.size owner l o' old hold
  · intro owner l o' object j w role hat hw hrole
    obtain ⟨old, hold, -, -⟩ := carrierAt_set hat
    rcases Store.slot_of_set hat.object_eq hw with ⟨rfl, rfl, rfl⟩ | ⟨old', hold', hw'⟩
    · exact (hv owner l old role hold hrole).grow (s.grows_set _ _ _)
    · have heq := hold.object_eq
      rw [hold'] at heq
      cases heq
      exact (h.slot owner l o' _ j w role hold hw' hrole).grow (s.grows_set _ _ _)

/-- Releasing changes nothing but which objects are live. -/
theorem carrierAt_releaseAll {ids : List ObjectId} (h : CarrierAt n (s.releaseAll ids) owner l o object) :
    ∃ old, CarrierAt n s owner l o old ∧ object.slots = old.slots := by
  obtain ⟨ho, hl, hstruct⟩ := h
  rw [Store.get?_releaseAll] at ho
  split at ho
  · obtain ⟨old, hold, rfl⟩ := Option.map_eq_some_iff.1 ho
    exact ⟨old, ⟨hold, hl, hstruct⟩, rfl⟩
  · exact ⟨object, ⟨ho, hl, hstruct⟩, rfl⟩

theorem Filled.releaseAll (h : Filled n s) (ids : List ObjectId) : Filled n (s.releaseAll ids) := by
  constructor
  · intro owner l o object hat
    obtain ⟨old, hold, hslots⟩ := carrierAt_releaseAll hat
    rw [hslots]
    exact h.size owner l o old hold
  · intro owner l o object k v role hat hv hrole
    obtain ⟨old, hold, hslots⟩ := carrierAt_releaseAll hat
    rw [hslots] at hv
    exact (h.slot owner l o old k v role hold hv hrole).grow (s.grows_releaseAll _)

theorem LinksSet.set {making : Option ObjectId} (h : LinksSet n base s making) {k : Nat} {v : Value} :
    LinksSet n base (s.set o k v) making := by
  intro owner l o' object j hbase hmaking hat hlink
  obtain ⟨old, hold, -, hslots⟩ := carrierAt_set hat
  obtain ⟨w, hw⟩ := h owner l o' old j hbase hmaking hold hlink
  exact hslots j w hw

theorem LinksSet.releaseAll {making : Option ObjectId} (h : LinksSet n base s making)
    (ids : List ObjectId) : LinksSet n base (s.releaseAll ids) making := by
  intro owner l o' object j hbase hmaking hat hlink
  obtain ⟨old, hold, hslots⟩ := carrierAt_releaseAll hat
  rw [hslots]
  exact h owner l o' old j hbase hmaking hold hlink

/-- An object without a link is allocated. -/
theorem LinksSet.allocate (hn : n.Built policy) (h : LinksSet n base s none)
    (hl : n.layouts.layout? owner = some l) (hlink : l.linkSlot? = none) (kind : AllocKind)
    (slots : Nat) : LinksSet n base (s.allocate l.struct kind slots) none := by
  intro owner' l' o object k hbase hmaking hat hk
  rcases carrierAt_allocate hat with ⟨-, hstruct, -⟩ | hold
  · obtain ⟨rfl, -⟩ := hn.layout_eq_of_struct_eq hat.layout_eq hl hstruct
    rw [hlink] at hk
    cases hk
  · exact h owner' l' o object k hbase hmaking hold hk

/-- An object is allocated whose link is stored next. -/
theorem Fresh.allocate (h : LinksSet n base s none) (struct : StructId) (kind : AllocKind)
    (slots : Nat) : Fresh n base (s.allocate struct kind slots) struct s.next := by
  refine ⟨?_, ?_, by simp [Store.next, Store.allocate], ?_⟩
  · intro owner l o object k hbase hmaking hat hk
    rcases carrierAt_allocate hat with ⟨rfl, -⟩ | hold
    · exact absurd rfl hmaking
    · exact h owner l o object k hbase (by simp) hold hk
  · intro object ho
    rw [Store.get?_next] at ho
    cases ho
    rfl
  · intro object k v ho hv
    have hold := Store.slot_of_allocate ho hv
    have := (Array.getElem?_eq_some_iff.1 hold).1
    simp [Store.next] at this

/-- The link of the object that is being made is stored. -/
theorem Fresh.set (hn : n.Built policy) {struct : StructId} (h : Fresh n base s struct o) (hat : CarrierAt n s owner l o object)
    {k : Nat} (hk : l.linkSlot? = some k) (hlt : k < object.slots.size) (v : Value) :
    LinksSet n base (s.set o k v) none := by
  intro owner' l' o' object' j hbase _ hat' hj
  obtain ⟨old, hold, -, hslots⟩ := carrierAt_set hat'
  by_cases heq : o' = o
  · subst heq
    obtain ⟨-, rfl, rfl⟩ := hat.unique hn hold
    rw [hk] at hj
    cases hj
    have ho := hat'.object_eq
    rw [Store.get?_set, if_pos rfl, hat.object_eq] at ho
    cases ho
    exact ⟨v, by simp [hlt]⟩
  · obtain ⟨w, hw⟩ := h.links owner' l' o' old j hbase (by simpa using Ne.symm heq) hold hj
    exact hslots j w hw

end

end StaticChain

import StaticChain.Lowering.Module
import StaticChain.Proofs.Escape
import StaticChain.Proofs.Resolution
import StaticChain.Proofs.Typing

/-!
# What values and locals are for

Every value and every local of a lowered function has one purpose from beginning to end: it holds
the value of an expression, a pointer to the carrier of a declaration, or the address of a slot of
such a carrier. A `Role` says which. `CodeOk` states that the instructions of a body respect roles:
what is loaded from a slot has the role of the slot, what is passed to a function has the role of
the parameter, what a closure or a carrier on the heap keeps is not on the stack, and the link of a
carrier is stored right after it is allocated and by nothing else.

Programs need not be type-correct. With `strict` the types that roles speak of are exact, without
it they are taken for no more than "some value". `StaticChain.Proofs.RoleAssignment` gives roles to
the code of every function.
-/

namespace StaticChain

open Lir (ValueId LocalId FunctionId StructId AllocKind Inst Ty)

/-- What a value or a local is for. -/
inductive Role where
  /-- It holds the value of an expression of the type. -/
  | value (ty : ValueType)
  /-- It points to the carrier, or is null where there is none. -/
  | context (carrier : Option DeclId)
  /-- It is the address of a slot of the carrier. -/
  | address (carrier : DeclId) (slot : Nat)

namespace Role

/-- The type of what is in the role, seen as a value. -/
def type? : Role → Option ValueType
  | .value ty => some ty
  | .context (some aggregate) => some (.instanceOf aggregate)
  | .context none => none
  | .address _ _ => none

/-- What is in the role is a value, that is, not a frame and not an address. -/
def IsValue (n : Nesting) : Role → Prop
  | .value _ => True
  | .context carrier => ∃ aggregate, carrier = some aggregate ∧ n.program.isAggregate aggregate = true
  | .address _ _ => False

def IsAddress : Role → Prop
  | .address _ _ => True
  | _ => False

/-- The types are the same, as far as the machine tells them apart. -/
def SameType (a b : Role) : Prop :=
  ∃ s t, a.type? = some s ∧ b.type? = some t ∧ (s = t ∨ s.IsScalar ∧ t.IsScalar)

/-- What is in the first role can be put where the second one is asked for. -/
def Fits (n : Nesting) (strict : Prop) (a b : Role) : Prop :=
  a = b ∨ (a.IsValue n ∧ ¬b.IsAddress ∧ (strict → a.SameType b))

/-- What is in the role is not on the stack. -/
def OnHeap (n : Nesting) : Role → Prop
  | .value _ => True
  | .context carrier => ∀ owner, carrier = some owner → n.plan.kind? owner ≠ some .stack
  | .address _ _ => False

variable {n : Nesting} {strict : Prop}

theorem Fits.refl (a : Role) : a.Fits n strict a := .inl rfl

/-- A value of one type is a value of another one if types do not matter or are the same. -/
theorem Fits.value_of {a : Role} {s t : ValueType} (h : a.Fits n strict (.value s))
    (hst : strict → s = t ∨ s.IsScalar ∧ t.IsScalar) : a.Fits n strict (.value t) := by
  refine .inr ⟨?_, id, fun hs => ?_⟩
  · rcases h with rfl | ⟨hv, -⟩
    · trivial
    · exact hv
  · rcases h with rfl | ⟨-, -, hsame⟩
    · exact ⟨s, t, rfl, rfl, hst hs⟩
    · obtain ⟨s', t', hs', ht', heq⟩ := hsame hs
      cases ht'
      refine ⟨s', t, hs', rfl, ?_⟩
      rcases heq with rfl | ⟨h₁, h₂⟩
      · exact hst hs
      · rcases hst hs with rfl | ⟨-, h₃⟩
        · exact .inr ⟨h₁, h₂⟩
        · exact .inr ⟨h₁, h₃⟩

/-- An instance is the context of the methods of its aggregate. -/
theorem Fits.context_of {a : Role} {s : ValueType} {aggregate : DeclId}
    (h : a.Fits n strict (.value s)) (hs : strict → s = .instanceOf aggregate) :
    a.Fits n strict (.context (some aggregate)) := by
  refine .inr ⟨?_, id, fun hst => ?_⟩
  · rcases h with rfl | ⟨hv, -⟩
    · trivial
    · exact hv
  · rcases h with rfl | ⟨-, -, hsame⟩
    · exact ⟨s, _, rfl, rfl, .inl (hs hst)⟩
    · obtain ⟨s', t', hs', ht', heq⟩ := hsame hst
      cases ht'
      refine ⟨s', _, hs', rfl, ?_⟩
      rcases heq with rfl | ⟨-, hscalar⟩
      · exact .inl (hs hst)
      · rw [hs hst] at hscalar
        rcases hscalar with h | h <;> cases h

theorem context_fits_value {aggregate : DeclId} {ty : ValueType}
    (ha : n.program.isAggregate aggregate = true) (hty : strict → ty = .instanceOf aggregate) :
    (Role.context (some aggregate)).Fits n strict (.value ty) := by
  refine .inr ⟨⟨aggregate, rfl, ha⟩, id, fun hs => ?_⟩
  exact ⟨.instanceOf aggregate, ty, rfl, rfl, .inl (hty hs).symm⟩

end Role

namespace Nesting

variable (n : Nesting)

/-- The role of what a slot of a carrier holds. -/
def slotRole? (carrier : DeclId) (slot : Nat) : Option Role :=
  (n.layouts.layout? carrier).bind fun l => l.slots[slot]?.map fun s =>
    match s.kind.var? with
    | some x => .value (n.program.varType x)
    | none => .context (n.above carrier)

/-- The storage type of a slot of a carrier. -/
def slotTy? (carrier : DeclId) (slot : Nat) : Option Ty :=
  (n.layouts.layout? carrier).bind (·.slotType? slot)

/-- The roles of what a function is called with, the context first. -/
def calleeRoles (id : DeclId) (function : FunctionDecl) : List Role :=
  (if (n.program.parent? id).isSome then [.context (n.above id)] else []) ++
    function.params.map fun x => .value (n.program.varType x)

end Nesting

/-- The roles of the values and locals of a function. -/
structure Roles where
  ofValue : ValueId → Role
  ofLocal : LocalId → Role

/-! ## Code that respects roles -/

/-- The instruction respects the roles. Branches, loops and links of new carriers are left to
`CodeOk`. -/
inductive InstOk (n : Nesting) (strict : Prop) (ret : ValueType) (Γ : Roles) : Inst → Prop
  | const {dest : ValueId} {x : Int64} {ty : ValueType} : ty.IsScalar →
      Γ.ofValue dest = .value ty → InstOk n strict ret Γ (.const dest x)
  | null {dest : ValueId} : Γ.ofValue dest = .context none → InstOk n strict ret Γ (.null dest)
  | binary {dest lhs rhs : ValueId} {op : Lir.BinOp} {ty : ValueType} : ty.IsScalar →
      Γ.ofValue dest = .value ty → InstOk n strict ret Γ (.binary dest op lhs rhs)
  | unary {dest operand : ValueId} {op : Lir.UnaryOp} {ty : ValueType} : ty.IsScalar →
      Γ.ofValue dest = .value ty → InstOk n strict ret Γ (.unary dest op operand)
  | localGet {dest : ValueId} {x : LocalId} : Γ.ofValue dest = Γ.ofLocal x →
      InstOk n strict ret Γ (.localGet dest x)
  | localSet {x : LocalId} {value : ValueId} :
      (Γ.ofValue value).Fits n strict (Γ.ofLocal x) → InstOk n strict ret Γ (.localSet x value)
  | alloc {dest : ValueId} {kind : AllocKind} {owner : DeclId} {l : Layout} :
      n.layouts.layout? owner = some l → l.linkSlot? = none →
      Γ.ofValue dest = .context (some owner) →
      (kind = .stack → n.plan.kind? owner = some .stack) →
      InstOk n strict ret Γ (.alloc dest l.struct kind)
  | fieldAddr {dest base : ValueId} {owner : DeclId} {l : Layout} {slot : Nat} :
      n.layouts.layout? owner = some l →
      (Γ.ofValue base).Fits n strict (.context (some owner)) →
      Γ.ofValue dest = .address owner slot →
      InstOk n strict ret Γ (.fieldAddr dest base l.struct slot)
  | load {dest addr : ValueId} {ty : Ty} {owner : DeclId} {slot : Nat} {role : Role} :
      Γ.ofValue addr = .address owner slot → n.slotRole? owner slot = some role →
      n.slotTy? owner slot = some ty → Γ.ofValue dest = role →
      InstOk n strict ret Γ (.load dest addr ty)
  | store {addr value : ValueId} {ty : Ty} {owner : DeclId} {slot : Nat} {valueTy : ValueType} :
      Γ.ofValue addr = .address owner slot → n.slotRole? owner slot = some (.value valueTy) →
      n.slotTy? owner slot = some ty → (Γ.ofValue value).Fits n strict (.value valueTy) →
      InstOk n strict ret Γ (.store addr value ty)
  | call {dest : Option ValueId} {id : DeclId} {function : FunctionDecl} {target : FunctionId}
      {args : List ValueId} : n.scope.function? id = some target →
      n.program.function? id = some function →
      List.Forall₂ (fun arg role => (Γ.ofValue arg).Fits n strict role) args
        (n.calleeRoles id function) →
      (∀ d, dest = some d → Γ.ofValue d = .value function.returnType) →
      InstOk n strict ret Γ (.call dest target args)
  | makeClosure {dest context : ValueId} {id : DeclId} {function : FunctionDecl}
      {target : FunctionId} : n.scope.function? id = some target →
      n.program.function? id = some function →
      Γ.ofValue context = .context (n.above id) → (Role.context (n.above id)).OnHeap n →
      Γ.ofValue dest =
        .value (.function (function.params.map n.program.varType) function.returnType) →
      InstOk n strict ret Γ (.makeClosure dest target context)
  | callClosure {dest : Option ValueId} {closure : ValueId} {args : List ValueId}
      {signature : Lir.Signature} {params : List ValueType} {result ty : ValueType} :
      (Γ.ofValue closure).Fits n strict (.value ty) → (strict → ty = .function params result) →
      (ValueType.function params result).signature = .ok signature →
      (∀ arg ∈ args, ∃ ty, (Γ.ofValue arg).Fits n strict (.value ty)) →
      (strict → List.Forall₂ (fun arg ty => (Γ.ofValue arg).Fits n strict (.value ty)) args
        params) →
      (∀ d, dest = some d → Γ.ofValue d = .value result) →
      InstOk n strict ret Γ (.callClosure dest closure args signature)
  | retNone : InstOk n strict ret Γ (.ret none)
  | ret {value : ValueId} : (Γ.ofValue value).Fits n strict (.value ret) →
      InstOk n strict ret Γ (.ret (some value))
  | unreachable : InstOk n strict ret Γ .unreachable

/-- The values that the link of a new carrier is stored with have their roles. -/
structure LinkOk (n : Nesting) (strict : Prop) (Γ : Roles) (owner : DeclId) (l : Layout)
    (kind : AllocKind) (slot : Nat) (object addr link : ValueId) : Prop where
  layout_eq : n.layouts.layout? owner = some l
  link_eq : l.linkSlot? = some slot
  kind_eq : kind = .stack → n.plan.kind? owner = some .stack
  object_role : Γ.ofValue object = .context (some owner)
  addr_role : Γ.ofValue addr = .address owner slot
  link_role : Γ.ofValue link = .context (n.above owner)
  link_heap : kind = .heap → (Role.context (n.above owner)).OnHeap n

/-- The instructions of a body respect the roles. -/
inductive CodeOk (n : Nesting) (strict : Prop) (ret : ValueType) (Γ : Roles) : List Inst → Prop
  | nil : CodeOk n strict ret Γ []
  | inst {inst : Inst} {rest : List Inst} : InstOk n strict ret Γ inst →
      CodeOk n strict ret Γ rest → CodeOk n strict ret Γ (inst :: rest)
  | branch {condition : ValueId} {thenBody elseBody rest : List Inst} :
      CodeOk n strict ret Γ thenBody → CodeOk n strict ret Γ elseBody →
      CodeOk n strict ret Γ rest →
      CodeOk n strict ret Γ (.branch condition thenBody elseBody :: rest)
  | loop {condition : ValueId} {header body rest : List Inst} :
      CodeOk n strict ret Γ header → CodeOk n strict ret Γ body → CodeOk n strict ret Γ rest →
      CodeOk n strict ret Γ (.loop header condition body :: rest)
  | link {object addr link : ValueId} {owner : DeclId} {l : Layout} {kind : AllocKind} {slot : Nat}
      {rest : List Inst} : LinkOk n strict Γ owner l kind slot object addr link →
      CodeOk n strict ret Γ rest →
      CodeOk n strict ret Γ (.alloc object l.struct kind :: .fieldAddr addr object l.struct slot ::
        .store addr link .ptr :: rest)

namespace CodeOk

variable {n : Nesting} {strict : Prop} {ret : ValueType} {Γ : Roles}

theorem append {c₁ c₂ : List Inst} (h₁ : CodeOk n strict ret Γ c₁) (h₂ : CodeOk n strict ret Γ c₂) :
    CodeOk n strict ret Γ (c₁ ++ c₂) := by
  induction h₁ with
  | nil => exact h₂
  | inst hi _ ih => exact .inst hi ih
  | branch ht he _ _ _ ih => exact .branch ht he ih
  | loop hh hb _ _ _ ih => exact .loop hh hb ih
  | link hl _ ih => exact .link hl ih

theorem single {inst : Inst} (h : InstOk n strict ret Γ inst) : CodeOk n strict ret Γ [inst] :=
  .inst h .nil

end CodeOk

/-! ## Slots -/

namespace Nesting

variable {n : Nesting} {policy : FramePolicy} {owner : DeclId} {l : Layout}

theorem slotRole?_of_kind (hl : n.layouts.layout? owner = some l) {x : VarId} {slot : Nat}
    {s : Layout.Slot} (hs : l.slots[slot]? = some s) (hk : s.kind.var? = some x) :
    n.slotRole? owner slot = some (.value (n.program.varType x)) := by
  simp [slotRole?, hl, hs, hk]

theorem slotRole?_of_slotOf? (hl : n.layouts.layout? owner = some l) {x : VarId} {slot : Nat}
    (h : l.slotOf? x = some slot) :
    n.slotRole? owner slot = some (.value (n.program.varType x)) := by
  obtain ⟨s, hs, hk⟩ := Layout.kind_of_slotOf? h
  exact slotRole?_of_kind hl hs hk

theorem Built.slotRole?_link (hn : n.Built policy) (hl : n.layouts.layout? owner = some l)
    {slot : Nat} (h : l.linkSlot? = some slot) :
    n.slotRole? owner slot = some (.context (n.above owner)) := by
  obtain ⟨s, hs, hk⟩ := (hn.layout_of hl).kind_linkSlot h
  rcases hk with hk | hk <;> simp [slotRole?, hl, hs, hk, Layout.SlotKind.var?]

theorem slotTy?_eq (hl : n.layouts.layout? owner = some l) (slot : Nat) :
    n.slotTy? owner slot = l.slotType? slot := by
  simp [slotTy?, hl]

theorem slotTy?_of_slotOf? (hl : n.layouts.layout? owner = some l) {x : VarId} {slot : Nat}
    (h : l.slotOf? x = some slot) : n.slotTy? owner slot = some ((l.slotType? slot).getD .ptr) := by
  obtain ⟨s, hs, -⟩ := Layout.kind_of_slotOf? h
  simp [slotTy?_eq hl, Layout.slotType?, hs]

theorem Built.slotTy?_link (hn : n.Built policy) (hl : n.layouts.layout? owner = some l)
    {slot : Nat} (h : l.linkSlot? = some slot) : n.slotTy? owner slot = some .ptr := by
  rw [slotTy?_eq hl, Layout.slotType?]
  exact (hn.layout_of hl).slotType_linkSlot h

/-- A slot stores what its role says. -/
theorem Built.storage?_of_slotTy? (hn : n.Built policy) {slot : Nat} {valueTy : ValueType} {ty : Ty}
    (hrole : n.slotRole? owner slot = some (.value valueTy)) (hty : n.slotTy? owner slot = some ty) :
    valueTy.storage? = some ty := by
  obtain ⟨l, hl, hslot⟩ := Option.bind_eq_some_iff.1 hrole
  obtain ⟨s, hs, hkind⟩ := Option.map_eq_some_iff.1 hslot
  rw [slotTy?_eq hl, Layout.slotType?, hs] at hty
  cases hty
  cases hx : s.kind.var? with
  | none => simp [hx] at hkind
  | some x =>
    simp only [hx, Role.value.injEq] at hkind
    obtain ⟨var, hv, hstorage⟩ := (hn.layout_of hl).storage_of_kind hs hx
    rw [← hkind, Program.varType_eq hv]
    exact hstorage

end Nesting

end StaticChain

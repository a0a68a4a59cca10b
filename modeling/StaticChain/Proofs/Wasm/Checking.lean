import Mathlib.Data.List.Forall2
import Mathlib.Data.Option.Basic
import StaticChain.Proofs.TypedLowering
import StaticChain.Proofs.Wasm.Contexts

/-!
# Generated code is well typed

Code is typed against a stack of operands. `Checks c labels code before after` says that code can stand
where there are operands of the types `before`, the topmost first, and that there are operands of the types
`after` behind it. After an instruction that never goes on there is whatever is asked for, so such code
leaves operands of any types (`Point.Offers`).

The code of an instruction that fits its types needs no operands and leaves none, whatever the blocks
around it are (`Site.Leaves`). Only the last instruction of a body leaves the results of the function.
-/

namespace StaticChain.Wasm

open Lir (ValueId LocalId Inst Ty)

/-! ## Operands -/

theorem TypeSpace.isBelow_self (s : TypeSpace) {ty : ValType} (h : ty.isRef = false) :
    s.isBelow ty ty = true := by
  cases ty with
  | ref type => cases h
  | _ => rfl

/-- There are operands of these types, the topmost first, or what is not there is taken to be. All locals
are set. -/
structure Point.Offers (p : Point) (types : List ValType) : Prop where
  operands : ∃ known, p.operands = known.map Operand.known ∧
    (known = types ∨ p.unbounded = true ∧ known <+: types)
  unset : p.unset = []

namespace Point.Offers

variable {c : Context} {p : Point} {ty : ValType} {types params results : List ValType}

theorem push (h : p.Offers types) (ty : ValType) : (p.push ty).Offers (ty :: types) := by
  obtain ⟨⟨known, heq, hknown⟩, hunset⟩ := h
  refine ⟨⟨ty :: known, by simp [Point.push, Point.pushOperand, heq], ?_⟩, hunset⟩
  rcases hknown with rfl | ⟨hu, hle⟩
  · exact .inl rfl
  · exact .inr ⟨hu, List.cons_prefix_cons.2 ⟨rfl, hle⟩⟩

theorem pushAll (h : p.Offers types) (results : List ValType) :
    (p.pushAll results).Offers (results.reverse ++ types) := by
  induction results generalizing p types with
  | nil => exact h
  | cons ty results ih => simpa [Point.pushAll] using ih (h.push ty)

theorem pop (h : p.Offers (ty :: types)) (hty : ty.isRef = false) :
    ∃ p', c.pop ty p = some p' ∧ p'.Offers types := by
  obtain ⟨⟨known, heq, hknown⟩, hunset⟩ := h
  cases known with
  | nil =>
    rcases hknown with h | ⟨hu, -⟩
    · cases h
    refine ⟨p, ?_, ⟨[], heq, .inr ⟨hu, List.nil_prefix⟩⟩, hunset⟩
    simp [Context.pop, Point.popAny, heq, hu, Operand.fits]
  | cons found known =>
    obtain ⟨rfl, hrest⟩ : found = ty ∧ (known = types ∨ p.unbounded = true ∧ known <+: types) := by
      rcases hknown with h | ⟨hu, hle⟩
      · cases h
        exact ⟨rfl, .inl rfl⟩
      · exact ⟨(List.cons_prefix_cons.1 hle).1, .inr ⟨hu, (List.cons_prefix_cons.1 hle).2⟩⟩
    refine ⟨{ p with operands := known.map Operand.known }, ?_, ⟨known, rfl, hrest⟩, hunset⟩
    simp [Context.pop, Point.popAny, heq, Operand.fits, TypeSpace.isBelow_self _ hty]

theorem popAll (h : p.Offers (params.reverse ++ types)) (hparams : ∀ ty ∈ params, ty.isRef = false) :
    ∃ p', c.popAll params p = some p' ∧ p'.Offers types := by
  induction params generalizing types with
  | nil => exact ⟨p, rfl, h⟩
  | cons ty params ih =>
    obtain ⟨p₁, hpop₁, h₁⟩ := ih (show p.Offers (params.reverse ++ ty :: types) by simpa using h)
      fun ty hmem => hparams ty (List.mem_cons_of_mem _ hmem)
    obtain ⟨p₂, hpop₂, h₂⟩ := h₁.pop (hparams ty List.mem_cons_self)
    refine ⟨p₂, ?_, h₂⟩
    unfold Context.popAll at hpop₁ ⊢
    rw [List.foldrM_cons, hpop₁]
    exact hpop₂

theorem apply (h : p.Offers (params.reverse ++ types)) (hparams : ∀ ty ∈ params, ty.isRef = false)
    (results : List ValType) :
    ∃ p', c.apply params results p = some p' ∧ p'.Offers (results.reverse ++ types) := by
  obtain ⟨p', hpop, h'⟩ := h.popAll (c := c) hparams
  exact ⟨_, by simp [Context.apply, hpop], h'.pushAll results⟩

/-- After an instruction that never goes on there is whatever is asked for. -/
theorem dead (h : p.Offers types) (types' : List ValType) : p.dead.Offers types' :=
  ⟨⟨[], rfl, .inr ⟨rfl, List.nil_prefix⟩⟩, h.unset⟩

/-- A block starts without operands. -/
theorem enter (h : p.Offers types) : (p.enter []).Offers [] := ⟨⟨[], rfl, .inl rfl⟩, h.unset⟩

theorem leaves_nil (h : p.Offers []) : c.leaves [] p = true := by
  obtain ⟨⟨known, heq, hknown⟩, -⟩ := h
  obtain rfl : known = [] := by
    rcases hknown with rfl | ⟨-, hle⟩
    · rfl
    · exact List.prefix_nil.1 hle
  simp [Context.leaves, Context.popAll, heq]

theorem leaves (h : p.Offers results.reverse) (hresults : ∀ ty ∈ results, ty.isRef = false) :
    c.leaves results p = true := by
  rw [← List.append_nil results.reverse] at h
  obtain ⟨p', hpop, h'⟩ := h.popAll (c := c) hresults
  have hleaves := h'.leaves_nil (c := c)
  simp only [Context.leaves, Context.popAll, List.foldrM_nil, Option.pure_def, Option.any_some] at hleaves
  simp [Context.leaves, hpop, hleaves]

end Point.Offers

/-! ## Code -/

/-- Code that takes some operands and leaves others, the topmost first. -/
def Checks (c : Context) (labels : List (List ValType)) (code : List Instr) (before after : List ValType) :
    Prop :=
  ∀ p : Point, p.Offers before → ∃ p', checkList c labels code p = some p' ∧ p'.Offers after

namespace Checks

variable {c : Context} {labels : List (List ValType)} {code rest : List Instr} {A B C : List ValType}

attribute [local simp] Context.checkOp

theorem nil : Checks c labels [] A A := fun p h => ⟨p, rfl, h⟩

theorem checkList_append (p : Point) : checkList c labels (code ++ rest) p =
    (checkList c labels code p).bind (checkList c labels rest) := by
  induction code generalizing p with
  | nil => simp [checkList]
  | cons instr code ih =>
    simp only [List.cons_append, checkList, Option.bind_eq_bind, Option.bind_assoc]
    exact Option.bind_congr fun p _ => ih p

theorem append (h : Checks c labels code A B) (h' : Checks c labels rest B C) :
    Checks c labels (code ++ rest) A C := by
  intro p hp
  obtain ⟨p₁, h₁, hB⟩ := h p hp
  obtain ⟨p₂, h₂, hC⟩ := h' p₁ hB
  exact ⟨p₂, by rw [checkList_append, h₁, Option.bind_some, h₂], hC⟩

theorem cons {instr : Instr} (h : ∀ p : Point, p.Offers A → ∃ p', instr.check c labels p = some p' ∧ p'.Offers B)
    (k : Checks c labels rest B C) : Checks c labels (instr :: rest) A C := by
  intro p hp
  obtain ⟨p₁, h₁, hB⟩ := h p hp
  obtain ⟨p₂, h₂, hC⟩ := k p₁ hB
  exact ⟨p₂, by simp [checkList, h₁, h₂], hC⟩

/-- An instruction that takes operands and leaves results. -/
theorem apply {op : Op} (params results : List ValType)
    (h : ∀ p, c.checkOp labels op p = c.apply params results p) (hparams : ∀ ty ∈ params, ty.isRef = false)
    (k : Checks c labels rest (results.reverse ++ A) C) :
    Checks c labels (.plain op :: rest) (params.reverse ++ A) C := by
  refine cons (fun p hp => ?_) k
  simp only [Instr.check, h]
  exact hp.apply hparams results

/-- An instruction after which nothing goes on. -/
theorem ends {op : Op} (h : ∀ p, c.checkOp labels op p = some p.dead) (k : Checks c labels rest B C) :
    Checks c labels (.plain op :: rest) A C := by
  refine cons (fun p hp => ?_) k
  simp only [Instr.check, h]
  exact ⟨_, rfl, hp.dead _⟩

/-! ### Locals, globals and constants -/

theorem localGet {i : Nat} {ty : ValType} (h : c.locals[i]? = some ty) (k : Checks c labels rest (ty :: A) C) :
    Checks c labels (.plain (.localGet i) :: rest) A C := by
  refine cons (fun p hp => ⟨p.push ty, ?_, hp.push ty⟩) k
  simp [Instr.check, hp.unset, h, guard]

theorem localSet {i : Nat} {ty : ValType} (h : c.locals[i]? = some ty) (hty : ty.isRef = false)
    (k : Checks c labels rest A C) : Checks c labels (.plain (.localSet i) :: rest) (ty :: A) C := by
  refine cons (fun p hp => ?_) k
  obtain ⟨p', hpop, hp'⟩ := hp.pop (c := c) hty
  exact ⟨{ p' with unset := p'.unset.erase i }, by simp [Instr.check, h, hpop], hp'.operands,
    by simp [hp'.unset]⟩

theorem globalGet {i : Nat} {type : GlobalType} (h : c.globals[i]? = some type)
    (k : Checks c labels rest (type.ty :: A) C) : Checks c labels (.plain (.globalGet i) :: rest) A C :=
  cons (fun p hp => ⟨p.push type.ty, by simp [Instr.check, h], hp.push _⟩) k

theorem globalSet {i : Nat} {ty : ValType} (h : c.globals[i]? = some ⟨ty, true⟩) (hty : ty.isRef = false)
    (k : Checks c labels rest A C) : Checks c labels (.plain (.globalSet i) :: rest) (ty :: A) C := by
  refine cons (fun p hp => ?_) k
  obtain ⟨p', hpop, hp'⟩ := hp.pop (c := c) hty
  exact ⟨p', by simp [Instr.check, h, hpop, guard], hp'⟩

theorem const32 (value : Int32) (k : Checks c labels rest (.i32 :: A) C) :
    Checks c labels (.plain (.const32 value) :: rest) A C :=
  cons (fun p hp => ⟨p.push .i32, rfl, hp.push _⟩) k

theorem const64 (value : Int64) (k : Checks c labels rest (.i64 :: A) C) :
    Checks c labels (.plain (.const64 value) :: rest) A C :=
  cons (fun p hp => ⟨p.push .i64, rfl, hp.push _⟩) k

/-! ### Arithmetic -/

theorem bin (w : Width) {op : IntBin} (k : Checks c labels rest (w.ty :: A) C) :
    Checks c labels (.plain (.bin w op) :: rest) (w.ty :: w.ty :: A) C :=
  apply [w.ty, w.ty] [w.ty] (fun _ => rfl) (by simp) k

theorem rel (w : Width) {op : IntRel} (k : Checks c labels rest (.i32 :: A) C) :
    Checks c labels (.plain (.rel w op) :: rest) (w.ty :: w.ty :: A) C :=
  apply [w.ty, w.ty] [.i32] (fun _ => rfl) (by simp) k

theorem eqz (w : Width) (k : Checks c labels rest (.i32 :: A) C) :
    Checks c labels (.plain (.eqz w) :: rest) (w.ty :: A) C :=
  apply [w.ty] [.i32] (fun _ => rfl) (by simp) k

theorem extend (k : Checks c labels rest (.i64 :: A) C) :
    Checks c labels (.plain .extend :: rest) (.i32 :: A) C :=
  apply [.i32] [.i64] (fun _ => rfl) (by simp) k

/-! ### Memory -/

/-- An access with an alignment and an offset that are in range. -/
theorem checkAccess_eq (hm : c.address? 0 = some .w32) {arg : MemArg} (h : arg.memory = 0) {a : Access}
    (ha : arg.align ≤ a.align) (ho : arg.offset < UInt32.size) (p : Point) :
    c.checkAccess arg a p = c.apply (.i32 :: a.params) a.results p := by
  simp [Context.checkAccess, h, hm, ha, ho, guard, Width.ty]

theorem load (hm : c.address? 0 = some .w32) {w : Width} {arg : MemArg} (h : arg.memory = 0)
    (ha : arg.align = (Memory.arg w).align) (ho : arg.offset < UInt32.size)
    (k : Checks c labels rest (w.ty :: A) C) : Checks c labels (.plain (.load w arg) :: rest) (.i32 :: A) C := by
  refine apply [.i32] [w.ty] (fun p => ?_) (by simp) k
  cases w <;> exact checkAccess_eq hm h (Nat.le_of_eq ha) ho p

theorem store (hm : c.address? 0 = some .w32) {w : Width} {arg : MemArg} (h : arg.memory = 0)
    (ha : arg.align = (Memory.arg w).align) (ho : arg.offset < UInt32.size) (k : Checks c labels rest A C) :
    Checks c labels (.plain (.store w arg) :: rest) (w.ty :: .i32 :: A) C := by
  refine apply [.i32, w.ty] [] (fun p => ?_) (by simp) k
  cases w <;> exact checkAccess_eq hm h (Nat.le_of_eq ha) ho p

theorem memorySize (hm : c.address? 0 = some .w32) (k : Checks c labels rest (.i32 :: A) C) :
    Checks c labels (.plain (.memorySize 0) :: rest) A C :=
  cons (fun p hp => ⟨p.push .i32, by simp [Instr.check, hm, Width.ty], hp.push _⟩) k

theorem memoryGrow (hm : c.address? 0 = some .w32) (k : Checks c labels rest (.i32 :: A) C) :
    Checks c labels (.plain (.memoryGrow 0) :: rest) (.i32 :: A) C :=
  apply [.i32] [.i32] (fun p => by simp [hm, Width.ty]) (by simp) k

/-! ### Control -/

theorem unreachable (k : Checks c labels rest B C) : Checks c labels (.plain .unreachable :: rest) A C :=
  ends (fun _ => rfl) k

theorem br {label : Nat} (h : labels[label]? = some []) (k : Checks c labels rest B C) :
    Checks c labels (.plain (.br label) :: rest) A C :=
  ends (fun p => by simp [h, Context.popAll]) k

theorem brIf {label : Nat} (h : labels[label]? = some []) (k : Checks c labels rest A C) :
    Checks c labels (.plain (.brIf label) :: rest) (.i32 :: A) C := by
  refine cons (fun p hp => ?_) k
  obtain ⟨p', hpop, hp'⟩ := hp.pop (c := c) rfl
  exact ⟨p', by simp [Instr.check, h, hpop, Context.apply, Context.popAll, Point.pushAll], hp'⟩

theorem ret (hresults : ∀ ty ∈ c.results, ty.isRef = false) (k : Checks c labels rest B C) :
    Checks c labels (.plain .ret :: rest) (c.results.reverse ++ A) C := by
  refine cons (fun p hp => ?_) k
  obtain ⟨p', hpop, hp'⟩ := hp.popAll (c := c) hresults
  exact ⟨p'.dead, by simp [Instr.check, hpop], hp'.dead B⟩

theorem call {i : Nat} {type : FuncType} (h : c.function? i = some type)
    (hparams : ∀ ty ∈ type.params, ty.isRef = false) (k : Checks c labels rest (type.results.reverse ++ A) C) :
    Checks c labels (.plain (.call i) :: rest) (type.params.reverse ++ A) C :=
  apply type.params type.results (fun p => by simp [h]) hparams k

theorem block {body : List Instr} (hb : Checks c ([] :: labels) body [] []) (k : Checks c labels rest A C) :
    Checks c labels (.block .empty body :: rest) A C := by
  refine cons (fun p hp => ?_) k
  obtain ⟨inner, hcheck, hinner⟩ := hb _ hp.enter
  have hleaves := hinner.leaves_nil (c := c)
  exact ⟨p, by simp [Instr.check, Context.blockType?, Context.popAll, hcheck, hleaves, guard, Point.pushAll], hp⟩

theorem loop {body : List Instr} (hb : Checks c ([] :: labels) body [] []) (k : Checks c labels rest A C) :
    Checks c labels (.loop .empty body :: rest) A C := by
  refine cons (fun p hp => ?_) k
  obtain ⟨inner, hcheck, hinner⟩ := hb _ hp.enter
  have hleaves := hinner.leaves_nil (c := c)
  exact ⟨p, by simp [Instr.check, Context.blockType?, Context.popAll, hcheck, hleaves, guard, Point.pushAll], hp⟩

theorem cond {thenBody elseBody : List Instr} (ht : Checks c ([] :: labels) thenBody [] [])
    (he : Checks c ([] :: labels) elseBody [] []) (k : Checks c labels rest A C) :
    Checks c labels (.cond .empty thenBody elseBody :: rest) (.i32 :: A) C := by
  refine cons (fun p hp => ?_) k
  obtain ⟨p', hpop, hp'⟩ := hp.pop (c := c) rfl
  obtain ⟨p₁, hcheck₁, h₁⟩ := ht _ hp'.enter
  obtain ⟨p₂, hcheck₂, h₂⟩ := he _ hp'.enter
  have hleaves₁ := h₁.leaves_nil (c := c)
  have hleaves₂ := h₂.leaves_nil (c := c)
  exact ⟨p', by simp [Instr.check, Context.blockType?, Context.popAll, hpop, hcheck₁, hcheck₂, hleaves₁,
    hleaves₂, guard, Point.pushAll], hp'⟩

end Checks

/-! ## The memory -/

namespace Checks

variable {c : Context} {labels : List (List ValType)} {rest : List Instr} {A C : List ValType} {memory : Memory}

theorem memoryBytes (hm : c.address? 0 = some .w32) (k : Checks c labels rest (.i32 :: A) C) :
    Checks c labels (Memory.memoryBytes ++ rest) A C :=
  .memorySize hm (.const32 _ (.bin .w32 k))

/-- The allocator takes a size and leaves an address. -/
theorem allocatorBody (hlocals : c.locals = #[.i32, .i32, .i32]) {heap : Nat}
    (hglobal : c.globals[heap]? = some ⟨.i32, true⟩) (hm : c.address? 0 = some .w32) :
    Checks c labels (Memory.allocatorBody heap) [] [.i32] := by
  have hlocal : ∀ i < 3, c.locals[i]? = some .i32 := by
    intro i hi
    rw [hlocals]
    match i, hi with
    | 0, _ => rfl
    | 1, _ => rfl
    | 2, _ => rfl
  unfold Memory.allocatorBody
  simp only [List.cons_append, List.nil_append]
  refine .localGet (hlocal 0 (by omega)) (.const32 _ (.bin .w32 (.const32 _ (.bin .w32
    (.localSet (hlocal 1 (by omega)) rfl ?_)))))
  refine .globalGet hglobal (.localSet (hlocal 2 (by omega)) rfl (.localGet (hlocal 2 (by omega))
    (.localGet (hlocal 1 (by omega)) (.bin .w32 (.globalSet hglobal rfl ?_)))))
  refine .globalGet hglobal (.memoryBytes hm (.rel .w32 (.cond ?_ .nil (.localGet (hlocal 2 (by omega)) .nil))))
  refine .globalGet hglobal (.memoryBytes hm (.bin .w32 (.const32 _ (.bin .w32 (.const32 _ (.bin .w32
    (.memoryGrow hm (.const32 _ (.rel .w32 (.cond ?_ .nil .nil))))))))))
  exact .unreachable .nil

theorem heapAlloc (h : c.function? memory.allocator = some Memory.allocatorType) {size : UInt32}
    (k : Checks c labels rest (.i32 :: A) C) : Checks c labels (memory.heapAlloc size ++ rest) A C :=
  .const32 _ (.call h (by simp [Memory.allocatorType]) k)

theorem stackAlloc (h : c.globals[memory.stack]? = some ⟨.i32, true⟩) {size : UInt32}
    (k : Checks c labels rest (.i32 :: A) C) : Checks c labels (memory.stackAlloc size ++ rest) A C := by
  refine .globalGet h (.const32 _ (.bin .w32 (.globalSet h rfl (.globalGet h (.const32 _ (.rel .w32
    (.cond ?_ .nil (.globalGet h k))))))))
  exact .unreachable .nil

end Checks

/-! ## Low-level instructions -/

namespace Site

/-- What the code of a function refers to is there, and has its type. -/
structure Fits (s : Site) (c : Context) : Prop where
  «local» : ∀ x ty, s.function.regs.HasLocal x ty → c.locals[x.index]? = some (ofTy ty)
  value : ∀ r ty, s.function.regs.HasValue r ty → c.locals[s.value r]? = some (ofTy ty)
  saved : ∀ i, s.saved? = some i → c.locals[i]? = some .i32
  function : ∀ id f, s.module.function? id = some f → c.function? (functionIndex id) = some (signature f)
  target : ∀ f ∈ s.targets, s.module.function? f.id = some f
  allocator : c.function? s.memory.allocator = some Memory.allocatorType
  stack : c.globals[s.memory.stack]? = some ⟨.i32, true⟩
  memory : c.address? 0 = some .w32
  results : c.results = s.function.ret.toList.map ofTy

namespace Fits

variable {s : Site} {c : Context} (h : s.Fits c) {labels : List (List ValType)} {rest : List Instr}
  {A C : List ValType}
include h

theorem get {r : ValueId} {ty : Ty} (hr : s.function.regs.HasValue r ty)
    (k : Checks c labels rest (ofTy ty :: A) C) : Checks c labels (s.get r :: rest) A C :=
  .localGet (h.value r ty hr) k

theorem set {r : ValueId} {ty : Ty} (hr : s.function.regs.HasValue r ty) (k : Checks c labels rest A C) :
    Checks c labels (s.set r :: rest) (ofTy ty :: A) C :=
  .localSet (h.value r ty hr) (ofTy_isRef ty) k

theorem gets {rs : List ValueId} {tys : List Ty} (hrs : List.Forall₂ s.function.regs.HasValue rs tys)
    (k : Checks c labels rest ((tys.map ofTy).reverse ++ A) C) :
    Checks c labels (rs.map s.get ++ rest) A C := by
  induction hrs generalizing A with
  | nil => exact k
  | cons hr _ ih => exact h.get hr (ih (by simpa using k))

theorem finishCall {dest : Option ValueId} {ret : Option Ty}
    (hd : List.Forall₂ s.function.regs.HasValue dest.toList ret.toList) (k : Checks c labels rest A C) :
    Checks c labels (s.finishCall dest ret.isSome ++ rest) ((ret.toList.map ofTy).reverse ++ A) C := by
  cases ret with
  | none =>
    cases dest with
    | none => exact k
    | some r => cases hd
  | some ty =>
    cases dest with
    | none => cases hd
    | some r =>
      obtain ⟨⟩ | ⟨hr, -⟩ := hd
      exact h.set hr k

/-- A call of a function of the module. -/
theorem call {id : Lir.FunctionId} {f : Lir.Function} (hf : s.module.function? id = some f)
    (k : Checks c labels rest ((f.ret.toList.map ofTy).reverse ++ A) C) :
    Checks c labels (.plain (.call (functionIndex id)) :: rest) ((f.callParams.map ofTy).reverse ++ A) C :=
  .call (h.function id f hf) (by simp [signature]) k

theorem load {ty : Ty} (k : Checks c labels rest (ofTy ty :: A) C) :
    Checks c labels (.plain (.load (width ty) (Memory.arg (width ty))) :: rest) (.i32 :: A) C := by
  cases ty <;> exact .load h.memory rfl rfl (by decide) k

theorem store {ty : Ty} (k : Checks c labels rest A C) :
    Checks c labels (.plain (.store (width ty) (Memory.arg (width ty))) :: rest) (ofTy ty :: .i32 :: A) C := by
  cases ty <;> exact .store h.memory rfl rfl (by decide) k

omit h in
theorem binary (op : Lir.BinOp) (k : Checks c labels rest (.i64 :: A) C) :
    Checks c labels (Site.binary op ++ rest) (.i64 :: .i64 :: A) C := by
  cases op <;> first | exact .bin .w64 k | exact .rel .w64 (.extend k)

theorem unary {operand : ValueId} (ho : s.function.regs.HasValue operand .i64) (op : Lir.UnaryOp)
    (k : Checks c labels rest (.i64 :: A) C) : Checks c labels (s.unary operand op ++ rest) A C := by
  cases op with
  | neg => exact .const64 _ (h.get ho (.bin .w64 k))
  | eqz => exact h.get ho (.eqz .w64 (.extend k))

/-- The call of one target of a closure leaves the block around it. -/
theorem callTarget {dest : Option ValueId} {closure : ValueId} {args : List ValueId} {target : Lir.Function}
    (hclosure : s.function.regs.HasValue closure .closure) (htarget : target ∈ s.targets)
    (hargs : List.Forall₂ s.function.regs.HasValue args target.params)
    (hd : List.Forall₂ s.function.regs.HasValue dest.toList target.ret.toList)
    (k : Checks c ([] :: labels) rest [] C) :
    Checks c ([] :: labels) (s.callTarget dest closure args target ++ rest) [] C := by
  refine h.get hclosure (.load h.memory rfl rfl (by decide) (.const32 _ (.rel .w32 (.cond ?_ .nil k))))
  -- Two blocks are open in the branch: its own, and the one that the call of the closure leaves.
  have hleave : Checks c ([] :: [] :: labels) [.plain (.br 1)] [] [] := .br rfl .nil
  have hcall := h.call (h.target target htarget) (h.finishCall hd hleave)
  have hpassed : Checks c ([] :: [] :: labels) (args.map s.get ++ (.plain (.call (functionIndex target.id)) ::
      (s.finishCall dest target.ret.isSome ++ [.plain (.br 1)]))) (if target.hasContext then [.i32] else []) [] := by
    refine h.gets hargs ?_
    cases hc : target.hasContext <;> simpa [Lir.Function.callParams, hc, ofTy] using hcall
  cases hc : target.hasContext with
  | true =>
    simp only [hc, if_true, List.append_assoc, List.cons_append, List.nil_append] at hpassed ⊢
    exact h.get hclosure (.load h.memory rfl rfl (by decide) hpassed)
  | false => simpa [hc] using hpassed

/-- A call of a closure tries the targets one after the other. -/
theorem callClosure {dest : Option ValueId} {closure : ValueId} {args : List ValueId} {sig : Lir.Signature}
    (hclosure : s.function.regs.HasValue closure .closure)
    (hargs : List.Forall₂ s.function.regs.HasValue args sig.params)
    (hd : List.Forall₂ s.function.regs.HasValue dest.toList sig.ret.toList) :
    Checks c labels (s.callClosure dest closure args sig) [] [] := by
  refine .block ?_ .nil
  have hfitting : ∀ target ∈ s.targets.filter fun target => target.params == sig.params && target.ret == sig.ret,
      target ∈ s.targets ∧ target.params = sig.params ∧ target.ret = sig.ret := by
    intro target hmem
    simpa using hmem
  generalize (s.targets.filter fun target => target.params == sig.params && target.ret == sig.ret) = fitting
    at hfitting
  induction fitting with
  | nil => exact .unreachable .nil
  | cons target fitting ih =>
    obtain ⟨hmem, hparams, hret⟩ := hfitting target List.mem_cons_self
    rw [List.flatMap_cons, List.append_assoc]
    exact h.callTarget hclosure hmem (hparams ▸ hargs) (hret ▸ hd)
      (ih fun target hmem => hfitting target (List.mem_cons_of_mem _ hmem))

/-- Code that returns leaves operands of any types. -/
theorem leave {value : Option ValueId}
    (hv : List.Forall₂ s.function.regs.HasValue value.toList s.function.ret.toList) :
    Checks c labels (s.leave value) [] C := by
  have hret : Checks c labels (value.toList.map s.get ++ [.plain .ret]) [] C := by
    refine h.gets hv ?_
    rw [← h.results]
    exact .ret (by simp [h.results]) .nil
  unfold Site.leave
  rw [List.append_assoc]
  cases hs : s.saved? with
  | none => exact hret
  | some saved => exact .localGet (h.saved saved hs) (.globalSet h.stack rfl hret)

/-- Code that starts a function with stack objects keeps the stack pointer. -/
theorem saveStack (k : Checks c labels rest A C) :
    Checks c labels (s.saved?.elim [] s.memory.saveStack ++ rest) A C := by
  cases hs : s.saved? with
  | none => exact k
  | some saved => exact .globalGet h.stack (.localSet (h.saved saved hs) rfl k)

end Fits

/-- Wherever the code stands in the function, it needs no operands and leaves these. -/
def Leaves (s : Site) (code : List Instr) (after : List ValType) : Prop :=
  ∀ c labels, s.Fits c → Checks c labels code [] after

variable {s : Site}

/-- The code of an instruction that fits its types leaves no operands. -/
theorem exists_inst {inst : Inst} (ht : InstTyped s.module s.function.ret s.function.regs inst) :
    ∃ code, s.inst inst = .ok code ∧ s.Leaves code [] := by
  cases ht with
  | const hd => exact ⟨_, rfl, fun _ _ h => .const64 _ (h.set hd .nil)⟩
  | null hd => exact ⟨_, rfl, fun _ _ h => .const32 _ (h.set hd .nil)⟩
  | binary hl hr hd =>
    refine ⟨_, rfl, fun _ _ h => ?_⟩
    exact h.get hl (h.get hr (Fits.binary _ (h.set hd .nil)))
  | unary ho hd => exact ⟨_, rfl, fun _ _ h => h.unary ho _ (h.set hd .nil)⟩
  | localGet hx hd => exact ⟨_, rfl, fun _ _ h => .localGet (h.local _ _ hx) (h.set hd .nil)⟩
  | localSet hx hv =>
    exact ⟨_, rfl, fun _ _ h => h.get hv (.localSet (h.local _ _ hx) (ofTy_isRef _) .nil)⟩
  | @alloc dest struct kind layout hl hd =>
    refine ⟨_, by simp only [Site.inst, hl]; rfl, fun _ _ h => ?_⟩
    cases kind with
    | heap => exact .heapAlloc h.allocator (h.set hd .nil)
    | stack => exact .stackAlloc h.stack (h.set hd .nil)
  | fieldAddr hb hd => exact ⟨_, rfl, fun _ _ h => h.get hb (.const32 _ (.bin .w32 (h.set hd .nil)))⟩
  | load ha hd => exact ⟨_, rfl, fun _ _ h => h.get ha (h.load (h.set hd .nil))⟩
  | store ha hv => exact ⟨_, rfl, fun _ _ h => h.get ha (h.get hv (h.store .nil))⟩
  | call hf hargs hd =>
    refine ⟨_, by simp only [Site.inst, hf]; rfl, fun _ _ h => ?_⟩
    rw [List.append_assoc, ← List.append_nil (s.finishCall _ _)]
    exact h.gets hargs (h.call hf (h.finishCall hd .nil))
  | makeClosure hc hd =>
    refine ⟨_, rfl, fun _ _ h => .heapAlloc h.allocator (h.set hd (h.get hd (.const32 _ ?_)))⟩
    exact .store h.memory rfl rfl (by decide) (h.get hd (h.get hc (.store h.memory rfl rfl (by decide) .nil)))
  | callClosure hclosure hargs hd => exact ⟨_, rfl, fun _ _ h => h.callClosure hclosure hargs hd⟩
  | ret hv => exact ⟨_, rfl, fun _ _ h => h.leave hv⟩
  | unreachable => exact ⟨_, rfl, fun _ _ _ => .unreachable .nil⟩

/-- The code of an instruction after which nothing goes on leaves whatever is asked for. -/
theorem exists_inst_of_isLast {inst : Inst} (ht : InstTyped s.module s.function.ret s.function.regs inst)
    (hlast : inst.IsLast) : ∃ code, s.inst inst = .ok code ∧ ∀ after, s.Leaves code after := by
  cases ht with
  | ret hv => exact ⟨_, rfl, fun _ _ _ h => h.leave hv⟩
  | unreachable => exact ⟨_, rfl, fun _ _ _ _ => .unreachable .nil⟩
  | _ => cases hlast

/-- Code that fits its types leaves no operands. -/
theorem exists_insts {code : List Inst} (ht : CodeTyped s.module s.function.ret s.function.regs code) :
    ∃ instrs, s.insts code = .ok instrs ∧ s.Leaves instrs [] := by
  induction ht with
  | nil => exact ⟨[], rfl, fun _ _ _ => .nil⟩
  | inst hi _ ih =>
    obtain ⟨first, hfirst, hleaves₁⟩ := exists_inst hi
    obtain ⟨rest, hrest, hleaves₂⟩ := ih
    exact ⟨first ++ rest, by simp only [insts, hfirst, hrest]; rfl,
      fun c labels h => (hleaves₁ c labels h).append (hleaves₂ c labels h)⟩
  | branch hc _ _ _ iht ihe ih =>
    obtain ⟨thenCode, hthen, hleaves₁⟩ := iht
    obtain ⟨elseCode, helse, hleaves₂⟩ := ihe
    obtain ⟨rest, hrest, hleaves₃⟩ := ih
    refine ⟨_, by simp only [insts, inst, hthen, helse, hrest]; rfl, fun c labels h => ?_⟩
    exact h.get hc (.const64 _ (.rel .w64 (.cond (hleaves₁ c _ h) (hleaves₂ c _ h) (hleaves₃ c _ h))))
  | loop hc _ _ _ ihh ihb ih =>
    obtain ⟨header, hheader, hleaves₁⟩ := ihh
    obtain ⟨body, hbody, hleaves₂⟩ := ihb
    obtain ⟨rest, hrest, hleaves₃⟩ := ih
    refine ⟨_, by simp only [insts, inst, hheader, hbody, hrest]; rfl, fun c labels h => ?_⟩
    refine .block (.loop ?_ .nil) (hleaves₃ c _ h)
    rw [List.append_assoc, List.append_assoc]
    exact (hleaves₁ c _ h).append (h.get hc (.eqz .w64 (.brIf rfl ((hleaves₂ c _ h).append (.br rfl .nil)))))

theorem insts_append {c₁ c₂ : List Inst} {i₁ i₂ : List Instr} (h₁ : s.insts c₁ = .ok i₁)
    (h₂ : s.insts c₂ = .ok i₂) : s.insts (c₁ ++ c₂) = .ok (i₁ ++ i₂) := by
  induction c₁ generalizing i₁ with
  | nil =>
    cases h₁
    exact h₂
  | cons inst c₁ ih =>
    simp only [insts] at h₁
    obtain ⟨first, hfirst, h₁⟩ := bind_eq_ok.1 h₁
    obtain ⟨rest, hrest, h₁⟩ := bind_eq_ok.1 h₁
    cases h₁
    simp only [List.cons_append, insts, hfirst, ih hrest, List.append_assoc]
    rfl

/-- A function that fits its types has code, which leaves the results of the function. -/
theorem exists_code (ht : s.function.Typed s.module) : ∃ body,
    s.code = .ok ⟨s.locals, Memory.bodyTokens body⟩ ∧ ∀ after, s.Leaves body after := by
  obtain ⟨code, inst, hbody, hlast⟩ := ht.last
  obtain ⟨htcode, htinst⟩ := (hbody ▸ ht.code).of_append
  obtain ⟨i₁, h₁, hleaves₁⟩ := exists_insts htcode
  obtain ⟨i₂, h₂, hleaves₂⟩ := exists_inst_of_isLast (.of_isLast htinst hlast) hlast
  have hinsts : s.insts s.function.body = .ok (i₁ ++ (i₂ ++ [])) := by
    rw [hbody]
    refine insts_append h₁ ?_
    simp only [insts, h₂]
    rfl
  have hle : ¬s.function.locals.size < s.function.callParams.length := by simpa using ht.params.length_le
  refine ⟨s.saved?.elim [] s.memory.saveStack ++ (i₁ ++ (i₂ ++ [])), ?_, fun after c labels h => ?_⟩
  · simp only [Site.code, body, hle, if_false, hinsts]
    rfl
  · rw [List.append_nil]
    exact h.saveStack ((hleaves₁ c labels h).append (hleaves₂ after c labels h))

end Site

end StaticChain.Wasm

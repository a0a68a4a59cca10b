import StaticChain.Proofs.Wasm.Assembly
import StaticChain.Proofs.Wasm.Forms

/-!
# Generated code is made of few kinds of instructions

The code of low-level instructions is basic (`Site.basicCode_insts`), so it is read back from its form, if
locals have numbers that fit. They do in a valid module (`Module.reads_code`): every instruction of checked code
was checked itself (`exists_checkOp_of_mem`), so the locals that it names are there.
-/

namespace StaticChain.Wasm

open Lir (ValueId FunctionId Inst)

/-! ## Basic code -/

/-- All tokens of the instruction are basic. -/
def Instr.IsBasic (instr : Instr) : Prop := ∀ t ∈ instr.tokens, t.IsBasic

/-- All instructions are basic. -/
def BasicCode (code : List Instr) : Prop := ∀ instr ∈ code, instr.IsBasic

@[simp] theorem basicCode_nil : BasicCode [] := by simp [BasicCode]

@[simp] theorem basicCode_cons {instr : Instr} {code : List Instr} :
    BasicCode (instr :: code) ↔ instr.IsBasic ∧ BasicCode code := List.forall_mem_cons

@[simp] theorem basicCode_append {code more : List Instr} :
    BasicCode (code ++ more) ↔ BasicCode code ∧ BasicCode more := List.forall_mem_append

theorem basicCode_iff {code : List Instr} : BasicCode code ↔ ∀ t ∈ tokensList code, t.IsBasic := by
  induction code with
  | nil => simp [tokensList]
  | cons instr code ih => rw [tokensList, List.forall_mem_append, ← ih, basicCode_cons, Instr.IsBasic]

namespace Instr

variable {op : Op} {body other : List Instr}

@[simp] theorem isBasic_plain : (Instr.plain op).IsBasic ↔ op.IsBasic := by
  simp [IsBasic, tokens]

@[simp] theorem isBasic_block : (Instr.block .empty body).IsBasic ↔ BasicCode body := by
  simp only [IsBasic, tokens, List.forall_mem_cons, List.forall_mem_append, basicCode_iff]
  simp

@[simp] theorem isBasic_loop : (Instr.loop .empty body).IsBasic ↔ BasicCode body := by
  simp only [IsBasic, tokens, List.forall_mem_cons, List.forall_mem_append, basicCode_iff]
  simp

@[simp] theorem isBasic_cond :
    (Instr.cond .empty body other).IsBasic ↔ BasicCode body ∧ BasicCode other := by
  simp only [IsBasic, tokens, List.forall_mem_cons, List.forall_mem_append, basicCode_iff]
  cases other <;> simp [tokensList]

end Instr

theorem functionIndex_lt (id : FunctionId) : functionIndex id < UInt32.size := Nat.mod_lt _ (by decide)

namespace Memory

@[simp] theorem arg_fits (w : Width) : (arg w).Fits := by cases w <;> exact ⟨rfl, by decide, by decide⟩

@[simp] theorem closureFunction_fits : closureFunction.Fits := ⟨rfl, by decide, by decide⟩

@[simp] theorem closureContext_fits : closureContext.Fits := ⟨rfl, by decide, by decide⟩

theorem basicCode_allocatorBody : BasicCode (allocatorBody 0) := by
  simp [allocatorBody, memoryBytes, UInt32.size]

end Memory

namespace Site

section

variable (s : Site)

@[simp] theorem get_isBasic (r : ValueId) : (s.get r).IsBasic := by simp [get]

@[simp] theorem set_isBasic (r : ValueId) : (s.set r).IsBasic := by simp [set]

@[simp] theorem basicCode_gets (rs : List ValueId) : BasicCode (rs.map s.get) := by
  simp [BasicCode]

@[simp] theorem basicCode_binary (op : Lir.BinOp) : BasicCode (binary op) := by
  cases op <;> simp [binary]

@[simp] theorem basicCode_unary (operand : ValueId) (op : Lir.UnaryOp) : BasicCode (s.unary operand op) := by
  cases op <;> simp [unary]

@[simp] theorem basicCode_finishCall (dest : Option ValueId) (returns : Bool) :
    BasicCode (s.finishCall dest returns) := by
  cases dest <;> cases returns <;> simp [finishCall]

theorem basicCode_callTarget (dest : Option ValueId) (closure : ValueId) (args : List ValueId)
    (target : Lir.Function) : BasicCode (s.callTarget dest closure args target) := by
  cases hc : target.hasContext <;> simp [callTarget, hc, UInt32.size, functionIndex_lt]

theorem basicCode_callClosure (dest : Option ValueId) (closure : ValueId) (args : List ValueId)
    (sig : Lir.Signature) : BasicCode (s.callClosure dest closure args sig) := by
  have htargets : ∀ targets : List Lir.Function,
      BasicCode (targets.flatMap (s.callTarget dest closure args)) := by
    intro targets instr hmem
    obtain ⟨target, -, hmem⟩ := List.mem_flatMap.1 hmem
    exact s.basicCode_callTarget dest closure args target instr hmem
  simp [callClosure, htargets]

end

variable (lir : Lir.Module) (f : Lir.Function)

@[simp] theorem basicCode_heapAlloc (size : UInt32) : BasicCode ((siteOf lir f).memory.heapAlloc size) := by
  simp [Memory.heapAlloc, siteOf, UInt32.size]

@[simp] theorem basicCode_stackAlloc (size : UInt32) : BasicCode ((siteOf lir f).memory.stackAlloc size) := by
  simp [Memory.stackAlloc, siteOf, UInt32.size]

theorem basicCode_saveStack : BasicCode ((siteOf lir f).saved?.elim [] (siteOf lir f).memory.saveStack) := by
  cases (siteOf lir f).saved? <;> simp [Memory.saveStack, siteOf, UInt32.size]

theorem basicCode_leave (value : Option ValueId) : BasicCode ((siteOf lir f).leave value) := by
  unfold leave
  cases (siteOf lir f).saved? <;> simp [Memory.restoreStack, siteOf, UInt32.size]

mutual

theorem basicCode_inst : (inst : Inst) → {code : List Instr} → (siteOf lir f).inst inst = .ok code →
    BasicCode code
  | .const .., _, h => by cases h; simp
  | .null _, _, h => by cases h; simp
  | .binary .., _, h => by cases h; simp
  | .unary .., _, h => by cases h; simp
  | .localGet .., _, h => by cases h; simp
  | .localSet .., _, h => by cases h; simp
  | .alloc _ struct kind, _, h => by
    rw [inst] at h
    split at h
    · cases h
    · cases h
      cases kind <;> simp
  | .fieldAddr .., _, h => by cases h; simp
  | .load .., _, h => by cases h; simp
  | .store .., _, h => by cases h; simp
  | .call .., _, h => by
    rw [inst] at h
    split at h
    · cases h
    · cases h
      simp [functionIndex_lt]
  | .makeClosure .., _, h => by
    cases h
    simp
  | .callClosure .., _, h => by
    cases h
    exact basicCode_callClosure _ _ _ _ _
  | .branch _ thenBody elseBody, _, h => by
    obtain ⟨thenCode, hthen, h⟩ := bind_eq_ok.1 h
    obtain ⟨elseCode, helse, h⟩ := bind_eq_ok.1 h
    cases h
    simp [basicCode_insts thenBody hthen, basicCode_insts elseBody helse]
  | .loop header _ body, _, h => by
    obtain ⟨headerCode, hheader, h⟩ := bind_eq_ok.1 h
    obtain ⟨bodyCode, hbody, h⟩ := bind_eq_ok.1 h
    cases h
    simp [UInt32.size, basicCode_insts header hheader, basicCode_insts body hbody]
  | .ret _, _, h => by
    cases h
    exact basicCode_leave lir f _
  | .unreachable, _, h => by cases h; simp

theorem basicCode_insts : (body : List Inst) → {code : List Instr} → (siteOf lir f).insts body = .ok code →
    BasicCode code
  | [], _, h => by cases h; simp
  | first :: rest, _, h => by
    obtain ⟨code₁, h₁, h⟩ := bind_eq_ok.1 h
    obtain ⟨code₂, h₂, h⟩ := bind_eq_ok.1 h
    cases h
    exact basicCode_append.2 ⟨basicCode_inst first h₁, basicCode_insts rest h₂⟩

end

/-- The code of a low-level function is basic. -/
theorem exists_basicCode {lir : Lir.Module} {f : Lir.Function} {code : Code}
    (h : (siteOf lir f).code = .ok code) : ∃ body, code = ⟨(siteOf lir f).locals, Memory.bodyTokens body⟩ ∧
      BasicCode body := by
  obtain ⟨body, -, hbody, rfl⟩ := Site.code_eq_ok _ h
  exact ⟨_, rfl, basicCode_append.2 ⟨basicCode_saveStack lir f, basicCode_insts lir f _ hbody⟩⟩

end Site

/-! ## Checked code -/

mutual

/-- An instruction of checked code was checked, somewhere. -/
theorem Instr.exists_checkOp {c : Context} {op : Op} : (instr : Instr) → {labels : List (List ValType)} →
    {p q : Point} → instr.check c labels p = some q → .plain op ∈ instr.tokens →
    ∃ labels p q, c.checkOp labels op p = some q
  | .plain _, _, _, _, h, hop => by
    cases List.mem_singleton.1 hop
    exact ⟨_, _, _, h⟩
  | .block _ body, _, _, _, h, hop => by
    simp only [Instr.check, Option.bind_eq_bind, Option.bind_eq_some_iff] at h
    obtain ⟨_, -, _, -, _, hbody, -⟩ := h
    exact exists_checkOp_of_mem body hbody (by simpa [Instr.tokens] using hop)
  | .loop _ body, _, _, _, h, hop => by
    simp only [Instr.check, Option.bind_eq_bind, Option.bind_eq_some_iff] at h
    obtain ⟨_, -, _, -, _, hbody, -⟩ := h
    exact exists_checkOp_of_mem body hbody (by simpa [Instr.tokens] using hop)
  | .tryTable _ _ body, _, _, _, h, hop => by
    simp only [Instr.check, Option.bind_eq_bind, Option.bind_eq_some_iff] at h
    obtain ⟨_, -, _, -, _, -, _, hbody, -⟩ := h
    exact exists_checkOp_of_mem body hbody (by simpa [Instr.tokens] using hop)
  | .cond _ thenBody elseBody, _, _, _, h, hop => by
    simp only [Instr.check, Option.bind_eq_bind, Option.bind_eq_some_iff] at h
    obtain ⟨_, -, _, -, _, hthen, _, -, _, helse, -⟩ := h
    have hop : .plain op ∈ tokensList thenBody ∨ .plain op ∈ tokensList elseBody := by
      cases elseBody <;> simpa [Instr.tokens, tokensList] using hop
    rcases hop with hop | hop
    · exact exists_checkOp_of_mem thenBody hthen hop
    · exact exists_checkOp_of_mem elseBody helse hop

theorem exists_checkOp_of_mem {c : Context} {op : Op} : (body : List Instr) → {labels : List (List ValType)} →
    {p q : Point} → checkList c labels body p = some q → .plain op ∈ tokensList body →
    ∃ labels p q, c.checkOp labels op p = some q
  | [], _, _, _, _, hop => by simp [tokensList] at hop
  | instr :: rest, _, _, _, h, hop => by
    obtain ⟨_, hinstr, hrest⟩ := Option.bind_eq_some_iff.1 h
    rcases List.mem_append.1 hop with hop | hop
    · exact instr.exists_checkOp hinstr hop
    · exact exists_checkOp_of_mem rest hrest hop

end

/-- Checked instructions name locals that are there. -/
theorem Op.fewLocals_of_checkOp {c : Context} {labels : List (List ValType)} {op : Op} {p q : Point}
    (h : c.checkOp labels op p = some q) (hsize : c.locals.size ≤ UInt32.size) : op.FewLocals := by
  cases op with
  | localGet n =>
    simp only [Context.checkOp, Option.bind_eq_bind, Option.bind_eq_some_iff] at h
    obtain ⟨_, -, _, hn, -⟩ := h
    exact Nat.lt_of_lt_of_le (Array.getElem?_eq_some_iff.1 hn).1 hsize
  | localSet n =>
    simp only [Context.checkOp, Option.bind_eq_bind, Option.bind_eq_some_iff] at h
    obtain ⟨_, hn, -⟩ := h
    exact Nat.lt_of_lt_of_le (Array.getElem?_eq_some_iff.1 hn).1 hsize
  | _ => trivial

namespace Module

variable {m : Module}

/-- The code of a valid module fits the type of its function. -/
theorem exists_codeIsValid (h : m.isValid = true) {code : Code} (hmem : code ∈ m.code) :
    ∃ c type, codeIsValid c type code = true := by
  simp only [Module.isValid, Bool.and_eq_true, Option.any_eq_true] at h
  obtain ⟨-, c, -, -, hbodies⟩ := h
  simp only [Module.bodiesAreValid, Bool.and_eq_true, List.all_eq_true] at hbodies
  obtain ⟨i, hi⟩ := List.getElem?_of_mem hmem
  have hvalid := hbodies.2 (code, i) (List.mem_zipIdx_iff_getElem?.2 hi)
  obtain ⟨type, -, hvalid⟩ := (Option.any_eq_true ..).1 hvalid
  exact ⟨c, type, hvalid⟩

/-- Basic code of a valid module is read back. -/
theorem reads_code (h : m.isValid = true) {locals : List ValType} {body : List Instr}
    (hmem : ⟨locals, Memory.bodyTokens body⟩ ∈ m.code) (htypes : ∀ ty ∈ locals, ty.isRef = false)
    (hbasic : BasicCode body) :
    Get.Reads Get.code (sized (Code.mk locals (Memory.bodyTokens body)).bytes)
      ⟨locals, Memory.bodyTokens body⟩ := by
  obtain ⟨c, type, hvalid⟩ := exists_codeIsValid h hmem
  simp only [codeIsValid, Option.any_eq_true, Bool.and_eq_true, decide_eq_true_eq] at hvalid
  obtain ⟨tys, htys, ⟨hcount, hsize⟩, body', hbody, hcheck⟩ := hvalid
  cases Option.some.inj ((Instr.ofTokens?_bodyTokens body).symm.trans hbody)
  obtain ⟨q, hcheck, -⟩ := (Option.any_eq_true ..).1 hcheck
  have hlen := length_of_mapM_eq_some htys
  refine Code.reads (Nat.lt_of_le_of_lt hsize (by decide)) ?_ htypes ?_ ?_
  · simp only [List.size_toArray, List.length_append] at hcount
    exact Nat.le_trans (by simp [← hlen]) (Nat.le_trans (Nat.le_add_left _ _) hcount)
  · exact List.forall_mem_append.2 ⟨basicCode_iff.1 hbasic, by simp⟩
  · intro op hop
    obtain ⟨_, _, _, hop⟩ := exists_checkOp_of_mem body hcheck (by simpa [Memory.bodyTokens] using hop)
    exact Op.fewLocals_of_checkOp hop (Nat.le_trans hcount (by decide))

end Module

end StaticChain.Wasm

import Mathlib.Data.List.Nodup
import Mathlib.Data.Option.Basic
import StaticChain.Proofs.Success
import StaticChain.Proofs.Wasm.Execution
import StaticChain.Wasm.Generation

/-!
# What generated modules hold

A generated module (`Generated`) has the allocator as its first function and the code of every
low-level function after it, two globals, a memory, and an export for every function without context.
Code is kept in its flat form; the structured form comes back from it (`Instr.ofTokens?_bodyTokens`).
-/

namespace StaticChain.Wasm

/-! ## The flat form of code -/

mutual

theorem Instr.nest_tokens : (instr : Instr) → (rest : List Token) → (done : List Instr) →
    (around : List OpenBlock) →
    Instr.nest (instr.tokens ++ rest) done around = Instr.nest rest (instr :: done) around
  | .plain op, rest, done, around => by simp [Instr.tokens, Instr.nest]
  | .block ty body, rest, done, around => by
    simp [Instr.tokens, Instr.nest, nest_tokensList body, OpenBlock.close]
  | .loop ty body, rest, done, around => by
    simp [Instr.tokens, Instr.nest, nest_tokensList body, OpenBlock.close]
  | .tryTable ty catches body, rest, done, around => by
    simp [Instr.tokens, Instr.nest, nest_tokensList body, OpenBlock.close]
  | .cond ty thenBody [], rest, done, around => by
    simp [Instr.tokens, Instr.nest, nest_tokensList thenBody, OpenBlock.close]
  | .cond ty thenBody (first :: elseBody), rest, done, around => by
    simp [Instr.tokens, Instr.nest, nest_tokensList thenBody, nest_tokensList (first :: elseBody),
      OpenBlock.close]

theorem Instr.nest_tokensList : (body : List Instr) → (rest : List Token) → (done : List Instr) →
    (around : List OpenBlock) →
    Instr.nest (tokensList body ++ rest) done around = Instr.nest rest (body.reverse ++ done) around
  | [], rest, done, around => by simp [tokensList]
  | instr :: body, rest, done, around => by
    simp [tokensList, nest_tokens instr, nest_tokensList body]

end

/-- Code comes back from its flat form. -/
theorem Instr.ofTokens?_bodyTokens (body : List Instr) :
    Instr.ofTokens? (Memory.bodyTokens body) = some body := by
  unfold Memory.bodyTokens Instr.ofTokens?
  rw [nest_tokensList]
  simp [Instr.nest]

/-! ## Putting modules together

The types of generated modules are function types that stand alone, so a list of function types says
which they are. -/

namespace Module

variable {m : Module} {types : List FuncType} (h : m.types = types.map TypeGroup.func)
include h

theorem members_eq : m.types.flatMap TypeGroup.members = types.map fun t => { body := .func t } := by
  rw [h, List.flatMap_map]
  exact List.flatMap_pure_eq_map _ types

theorem funcType?_eq (i : Nat) : m.funcType? i = types[i]? := by
  unfold funcType?
  rw [members_eq h, List.getElem?_map]
  cases types[i]? <;> rfl

/-- Adding a type gives its number and keeps those of others. -/
theorem addType_eq (type : FuncType) : ∃ types', types <+: types' ∧
    types'[(m.addType type).1]? = some type ∧
      (m.addType type).2 = { m with types := types'.map TypeGroup.func } := by
  unfold Module.addType
  cases hfind : m.types.findIdx? (· == .func type) with
  | some i =>
    refine ⟨types, List.prefix_refl _, ?_, by simp [← h]⟩
    rw [h, List.findIdx?_map, List.findIdx?_eq_some_iff_getElem] at hfind
    obtain ⟨hlt, heq, -⟩ := hfind
    simpa [hlt, TypeGroup.func] using heq
  | none => exact ⟨types ++ [type], List.prefix_append _ _, by simp [h], by simp [h]⟩

end Module

/-- Every function of the list gets a number, and its type is there. -/
theorem declareAll_eq {m : Module} {types : List FuncType} (h : m.types = types.map TypeGroup.func)
    (fs : List Lir.Function) : ∃ types' numbers, types <+: types' ∧
      List.Forall₂ (fun f i => types'[i]? = some (signature f)) fs numbers ∧
      declareAll fs m = { m with
        types := types'.map TypeGroup.func, functions := m.functions ++ numbers } := by
  induction fs generalizing m types with
  | nil => exact ⟨types, [], List.prefix_refl _, .nil, by simp [declareAll, ← h]⟩
  | cons f fs ih =>
    obtain ⟨types₁, hle, htype, hadd⟩ := Module.addType_eq h (signature f)
    generalize hi : (m.addType (signature f)).1 = i at htype
    let m₁ : Module := { m with
      types := types₁.map TypeGroup.func, functions := m.functions ++ [i] }
    obtain ⟨types', numbers, hle', hall, heq⟩ :=
      ih (show m₁.types = types₁.map TypeGroup.func from rfl)
    refine ⟨types', i :: numbers, hle.trans hle', .cons ?_ hall, ?_⟩
    · obtain ⟨more, rfl⟩ := hle'
      rw [List.getElem?_append_left (List.getElem?_eq_some_iff.1 htype).1, htype]
    · have hstep : declareAll (f :: fs) m = declareAll fs m₁ := by
        simp [declareAll, m₁, hadd, hi, Module.declare]
      rw [hstep, heq]
      simp [m₁]

/-- The site of a function of a generated module. -/
def siteOf (lir : Lir.Module) (f : Lir.Function) : Site := ⟨lir, f, ⟨0, 0, 1, 0⟩, closureTargets lir⟩

@[simp] theorem siteOf_function (lir : Lir.Module) (f : Lir.Function) :
    (siteOf lir f).function = f := rfl

@[simp] theorem siteOf_module (lir : Lir.Module) (f : Lir.Function) :
    (siteOf lir f).module = lir := rfl

/-- The export of a function. -/
def exportOf (f : Lir.Function) : Export := ⟨f.name, .func, functionIndex f.id⟩

/-- The code of every function is added, and exports for those that a host can call. -/
theorem foldlM_define {lir : Lir.Module} {fs : List Lir.Function} {m m' : Module}
    (h : fs.foldlM (define lir ⟨0, 0, 1, 0⟩) m = .ok m') : ∃ codes,
      List.Forall₂ (fun f code => (siteOf lir f).code = .ok code) fs codes ∧
      m' = { m with
        code := m.code ++ codes
        exports := m.exports ++ (fs.filter fun f => !f.hasContext).map exportOf } ∧
      ((m.exports.map Export.name).Nodup → (m'.exports.map Export.name).Nodup) := by
  induction fs generalizing m with
  | nil =>
    cases h
    exact ⟨[], .nil, by simp, id⟩
  | cons f fs ih =>
    obtain ⟨m₁, hdefine, h⟩ := bind_eq_ok.1 h
    obtain ⟨codes, hcodes, rfl, hnodup⟩ := ih h
    obtain ⟨code, hcode, hdefine⟩ := bind_eq_ok.1 hdefine
    obtain ⟨m₂, hbody, hdefine⟩ := bind_eq_ok.1 hdefine
    unfold Module.addBody at hbody
    split at hbody
    · cases hbody
    cases hbody
    refine ⟨code :: codes, .cons hcode hcodes, ?_⟩
    cases hc : f.hasContext with
    | true =>
      simp only [hc, if_true] at hdefine
      cases hdefine
      exact ⟨by simp [hc], by simpa [hc] using hnodup⟩
    | false =>
      simp only [hc, Bool.false_eq_true, if_false] at hdefine
      unfold Module.addExport at hdefine
      split at hdefine
      · cases hdefine
      rename_i hnew
      cases hdefine
      refine ⟨by simp [hc, exportOf], fun hold => hnodup ?_⟩
      simp only [List.map_append, List.map_cons, List.map_nil]
      rw [List.nodup_append]
      refine ⟨hold, by simp, ?_⟩
      rintro _ hname _ hmem rfl
      obtain ⟨e, he, rfl⟩ := List.mem_map.1 hname
      simp only [List.mem_singleton] at hmem
      exact hnew (List.any_eq_true.2 ⟨e, he, by simp [hmem]⟩)

/-- A module with the memory, the globals and the allocator only. -/
def runtime : Module where
  types := [.func Memory.allocatorType]
  functions := [0]
  memories := [{ limits := ⟨2, some 1024⟩ }]
  globals := List.replicate 2 ⟨⟨.i32, true⟩, [.const32 Memory.heapStart]⟩
  exports := [⟨"memory", .memory, 0⟩]
  code := [Memory.allocatorCode 0]

theorem setup_eq : Memory.setup {} {} = (.ok ⟨0, 0, 1, 0⟩, runtime) := rfl

/-- What an assembled module holds, with the types, their numbers and the code of its functions. -/
structure Assembled (lir : Lir.Module) (w : Module) (types : List FuncType) (numbers : List Nat)
    (codes : List Code) : Prop where
  allocator_type : types[0]? = some Memory.allocatorType
  types_eq : w.types = types.map TypeGroup.func
  signatures : List.Forall₂ (fun f i => types[i]? = some (signature f)) lir.functions.toList numbers
  functions_eq : w.functions = 0 :: numbers
  bodies : List.Forall₂ (fun f code => (siteOf lir f).code = .ok code) lir.functions.toList codes
  code_eq : w.code = Memory.allocatorCode 0 :: codes
  exports_eq : w.exports = runtime.exports ++
    (lir.functions.toList.filter fun f => !f.hasContext).map exportOf
  exports_nodup : (w.exports.map Export.name).Nodup
  memories_eq : w.memories = runtime.memories
  globals_eq : w.globals = runtime.globals
  imports_eq : w.imports = []
  data_eq : w.data = []
  start_eq : w.start = none

theorem exists_of_assemble {lir : Lir.Module} {w : Module} (h : assemble lir = .ok w) :
    ∃ types numbers codes, Assembled lir w types numbers codes := by
  unfold assemble at h
  rw [setup_eq] at h
  obtain ⟨types, numbers, ⟨more, hle⟩, htypes, hdeclare⟩ := declareAll_eq
    (show runtime.types = [Memory.allocatorType].map TypeGroup.func from rfl) lir.functions.toList
  simp only [hdeclare] at h
  obtain ⟨_, ⟨⟩, h⟩ := bind_eq_ok.1 h
  obtain ⟨m', hfold, h⟩ := bind_eq_ok.1 h
  obtain ⟨codes, hcodes, hm', hnodup⟩ := foldlM_define hfold
  unfold Module.finish at h
  split at h
  swap
  · cases h
  cases h
  have hnodup := hnodup (by simp [runtime])
  subst hm'
  exact ⟨types, numbers, codes, by simp [← hle], rfl, htypes, rfl, hcodes, rfl, rfl, hnodup, rfl, rfl,
    rfl, rfl, rfl⟩

/-! ## Calls and exports -/

/-- A function of a module without imports. -/
theorem Module.callee?_of {w : Module} (hi : w.imports = []) {i t : Nat} {type : FuncType}
    {tys : List ValType} {zeros : List Val} {body : List Instr} (ht : w.functions[i]? = some t)
    (htype : w.funcType? t = some type) (hc : w.code[i]? = some ⟨tys, Memory.bodyTokens body⟩)
    (hz : tys.mapM ValType.zero? = some zeros) : w.callee? i = some ⟨type, zeros, body⟩ := by
  have hall : w.allFunctions = w.functions := by simp [Module.allFunctions, Module.imported, hi]
  simp [Module.callee?, hall, ht, htype, hc, hz, Instr.ofTokens?_bodyTokens]

theorem length_of_mapM_eq_some {α β : Type} {f : α → Option β} {l : List α} {r : List β}
    (h : l.mapM f = some r) : r.length = l.length := by
  induction l generalizing r with
  | nil =>
    cases h
    rfl
  | cons a l ih =>
    simp only [List.mapM_cons, Option.bind_eq_bind, Option.bind_eq_some_iff] at h
    obtain ⟨b, -, rest, hrest, h⟩ := h
    cases h
    simp [ih hrest]

/-- Locals of integer types start with zeros. -/
theorem exists_zeros {tys : List ValType} (h : ∀ ty ∈ tys, ty = .i32 ∨ ty = .i64) :
    ∃ zeros, tys.mapM ValType.zero? = some zeros ∧ zeros.length = tys.length := by
  induction tys with
  | nil => exact ⟨[], rfl, rfl⟩
  | cons ty tys ih =>
    obtain ⟨zeros, hzeros, hlen⟩ := ih fun ty hty => h ty (List.mem_cons_of_mem _ hty)
    obtain ⟨zero, hzero⟩ : ∃ zero, ty.zero? = some zero := by
      rcases h ty List.mem_cons_self with rfl | rfl <;> exact ⟨_, rfl⟩
    exact ⟨zero :: zeros, by simp [hzero, hzeros], by simp [hlen]⟩

theorem ofTy_eq (ty : Lir.Ty) : ofTy ty = .i32 ∨ ofTy ty = .i64 := by
  cases ty <;> simp [ofTy]

namespace Site

variable (s : Site)

/-- The number of locals of the function, the parameters among them. -/
def localCount : Nat :=
  s.function.locals.size + s.function.valueTypes.size + s.saved?.toList.length

theorem locals_length : s.locals.length =
    s.function.locals.size - s.function.callParams.length + s.function.valueTypes.size +
      s.saved?.toList.length := by
  simp [locals]
  omega

theorem locals_int : ∀ ty ∈ s.locals, ty = .i32 ∨ ty = .i64 := by
  intro ty hty
  simp only [locals, List.mem_append, List.mem_map] at hty
  rcases hty with ⟨ty, -, rfl⟩ | ⟨_, -, rfl⟩
  · exact ofTy_eq ty
  · exact .inl rfl

section

variable {lir : Lir.Module} {f : Lir.Function} (hlt : (siteOf lir f).localCount < UInt32.size)
include hlt

/-- The local of a value comes after those that the function has. -/
theorem value_eq_of_lt {r : Lir.ValueId} (hr : r.index < f.valueTypes.size) :
    (siteOf lir f).value r = f.locals.size + r.index := by
  simp only [localCount, siteOf_function] at hlt
  change index32 (f.locals.size + r.index) = _
  exact Nat.mod_eq_of_lt (by omega)

/-- The local that keeps the stack pointer is the last one. -/
theorem saved?_eq_of_lt {i : Nat} (h : (siteOf lir f).saved? = some i) :
    i = f.locals.size + f.valueTypes.size ∧ i < (siteOf lir f).localCount := by
  have hcount : (siteOf lir f).localCount = f.locals.size + f.valueTypes.size + 1 := by
    simp [localCount, h]
  simp only [saved?] at h
  split at h
  · cases h
    have heq : index32 (f.locals.size + f.valueTypes.size) = f.locals.size + f.valueTypes.size :=
      Nat.mod_eq_of_lt (by omega)
    exact ⟨heq, by rw [siteOf_function, heq]; omega⟩
  · cases h

end

theorem code_eq_ok {code : Code} (h : s.code = .ok code) : ∃ body,
    s.function.callParams.length ≤ s.function.locals.size ∧ s.insts s.function.body = .ok body ∧
      code = ⟨s.locals, Memory.bodyTokens (s.saved?.elim [] s.memory.saveStack ++ body)⟩ := by
  obtain ⟨body, hbody, h⟩ := bind_eq_ok.1 h
  cases h
  unfold Site.body at hbody
  split at hbody
  · cases hbody
  rename_i hle
  obtain ⟨code, hcode, hbody⟩ := bind_eq_ok.1 hbody
  cases hbody
  exact ⟨code, Nat.le_of_not_lt hle, hcode, rfl⟩

end Site

namespace Assembled

variable {lir : Lir.Module} {w : Module} {types : List FuncType} {numbers : List Nat}
  {codes : List Code} (h : Assembled lir w types numbers codes)
include h

theorem fresh_eq : w.fresh? = some ⟨[.i32 65536, .i32 65536], ⟨fun _ => 0, 2, some 1024⟩, 0⟩ := by
  unfold Module.fresh?
  rw [h.imports_eq, h.data_eq, h.start_eq, h.memories_eq, h.globals_eq]
  rfl

theorem allocator_eq : w.callee? 0 =
    some ⟨Memory.allocatorType, [.i32 0, .i32 0], Memory.allocatorBody 0⟩ := by
  refine Module.callee?_of h.imports_eq (by rw [h.functions_eq]; rfl) ?_
    (by rw [h.code_eq]; rfl) rfl
  rw [Module.funcType?_eq h.types_eq, h.allocator_type]

/-- The code of a low-level function comes after the allocator. -/
theorem callee_eq {i : Nat} {f : Lir.Function} (hf : lir.functions[i]? = some f) : ∃ zeros body,
    (siteOf lir f).insts f.body = .ok body ∧
      f.callParams.length + zeros.length = (siteOf lir f).localCount ∧
      w.callee? (i + 1) = some ⟨signature f, zeros,
        (siteOf lir f).saved?.elim [] (siteOf lir f).memory.saveStack ++ body⟩ := by
  have hf : lir.functions.toList[i]? = some f := by simpa using hf
  obtain ⟨number, hnumber, htype⟩ := exists_getElem?_of_forall₂ h.signatures hf
  obtain ⟨code, hcode, hsite⟩ := exists_getElem?_of_forall₂ h.bodies hf
  obtain ⟨body, hle, hbody, rfl⟩ := Site.code_eq_ok _ hsite
  obtain ⟨zeros, hzeros, hlen⟩ := exists_zeros (siteOf lir f).locals_int
  refine ⟨zeros, body, hbody, ?_, ?_⟩
  · rw [hlen, Site.locals_length, Site.localCount]
    simp only [siteOf_function] at hle ⊢
    omega
  · refine Module.callee?_of h.imports_eq (by rw [h.functions_eq]; exact hnumber) ?_
      (by rw [h.code_eq]; exact hcode) hzeros
    rw [Module.funcType?_eq h.types_eq, htype]

/-- There are no functions but the allocator and the low-level ones. -/
theorem exists_function_of_callee {i : Nat} {callee : Module.Callee} (hc : w.callee? (i + 1) = some callee) :
    ∃ f, lir.functions[i]? = some f := by
  have hall : w.allFunctions = 0 :: numbers := by
    simp [Module.allFunctions, Module.imported, h.imports_eq, h.functions_eq]
  obtain ⟨type, htype, -⟩ := Option.bind_eq_some_iff.1 hc
  rw [hall] at htype
  have hlt : i + 1 < (0 :: numbers).length := by
    by_contra hge
    simp [List.getElem?_eq_none (Nat.le_of_not_lt hge)] at htype
  have hlen := h.signatures.length_eq
  simp only [Array.length_toList, List.length_cons] at hlen hlt
  exact ⟨lir.functions[i], Array.getElem?_eq_getElem (by omega)⟩

theorem exported_eq {f : Lir.Function} (hf : f ∈ lir.functions) (hc : f.hasContext = false) :
    w.exported? f.name = some (functionIndex f.id) := by
  have hmem : exportOf f ∈ w.exports := by
    rw [h.exports_eq, List.mem_append]
    exact .inr (List.mem_map.2 ⟨f, List.mem_filter.2 ⟨by simpa using hf, by simp [hc]⟩, rfl⟩)
  unfold Module.exported?
  cases hfind : w.exports.find? fun e => e.name == f.name && e.kind == .func with
  | none =>
    have := List.find?_eq_none.1 hfind _ hmem
    simp [exportOf] at this
  | some e =>
    have hname : e.name = f.name := by
      have := List.find?_some hfind
      simp only [Bool.and_eq_true, beq_iff_eq] at this
      exact this.1
    have : e = exportOf f := List.inj_on_of_nodup_map h.exports_nodup
      (List.mem_of_find?_eq_some hfind) hmem hname
    simp [this, exportOf]

/-- A valid module has fewer functions than numbers have room for. -/
theorem functions_lt (hv : w.isValid = true) : lir.functions.size + 1 < UInt32.size := by
  simp only [Module.isValid, Bool.and_eq_true] at hv
  have hlimits := hv.1
  simp only [Module.isWithinLimits, Bool.and_eq_true, List.all_cons, decide_eq_true_eq] at hlimits
  have hcount := hlimits.1.1.1.1.1.1.2.1
  simp only [Module.allFunctions, h.functions_eq, List.length_append, List.length_cons] at hcount
  have hlen := h.signatures.length_eq
  simp only [Array.length_toList] at hlen
  have : maxParts = 1000000 := rfl
  simp only [UInt32.size]
  omega

/-- The code of a function in a valid module has few locals after the parameters. -/
theorem locals_le (hv : w.isValid = true) {code : Code} (hcode : code ∈ codes) :
    code.locals.length ≤ Get.maxLocals := by
  simp only [Module.isValid, Bool.and_eq_true, Option.any_eq_true] at hv
  obtain ⟨-, c, -, -, hbodies⟩ := hv
  simp only [Module.bodiesAreValid, Bool.and_eq_true, List.all_eq_true] at hbodies
  have hmem : code ∈ w.code := by
    rw [h.code_eq]
    exact List.mem_cons_of_mem _ hcode
  obtain ⟨i, hi, rfl⟩ := List.getElem_of_mem hmem
  have hvalid := hbodies.2 (w.code[i], i) (List.mem_zipIdx_iff_getElem?.2 (by simp [hi]))
  simp only [Option.any_eq_true] at hvalid
  obtain ⟨type, -, hvalid⟩ := hvalid
  simp only [Module.codeIsValid, Option.any_eq_true, Bool.and_eq_true, decide_eq_true_eq] at hvalid
  obtain ⟨locals, hlocals, ⟨hsize, -⟩, -⟩ := hvalid
  have hlen := length_of_mapM_eq_some hlocals
  simp only [List.size_toArray, List.length_append] at hsize
  omega

/-- The locals of a function in a valid module can be numbered. -/
theorem localCount_lt (hv : w.isValid = true) {f : Lir.Function} (hf : f ∈ lir.functions) :
    (siteOf lir f).localCount < UInt32.size := by
  obtain ⟨i, hi, rfl⟩ := Array.getElem_of_mem hf
  have hget : lir.functions.toList[i]? = some lir.functions[i] := by simp [hi]
  generalize lir.functions[i] = f at hget
  obtain ⟨code, hcode, hsite⟩ := exists_getElem?_of_forall₂ h.bodies hget
  obtain ⟨number, -, htype⟩ := exists_getElem?_of_forall₂ h.signatures hget
  obtain ⟨body, hle, -, rfl⟩ := Site.code_eq_ok _ hsite
  have hlocals := h.locals_le hv (List.mem_of_getElem? hcode)
  have hparams : f.callParams.length ≤ maxArity := by
    simp only [Module.isValid, Bool.and_eq_true] at hv
    have hlimits := hv.1
    simp only [Module.isWithinLimits, Bool.and_eq_true, List.all_eq_true] at hlimits
    have hsig := hlimits.2 { body := .func (signature f) } (by
      rw [h.types_eq, List.mem_flatMap]
      exact ⟨.func (signature f), List.mem_map_of_mem (List.mem_of_getElem? htype),
        List.mem_singleton_self _⟩)
    simp only [CompositeType.isWithinLimits, signature, Bool.and_eq_true, decide_eq_true_eq,
      List.length_map] at hsig
    exact hsig.1
  rw [Site.locals_length] at hlocals
  simp only [siteOf_function] at hle hlocals
  have : Get.maxLocals = 50000 := rfl
  have : maxArity = 1000 := rfl
  simp only [Site.localCount, siteOf_function, UInt32.size]
  omega

end Assembled

/-- What is known of a module that was generated. -/
structure Generated (lir : Lir.Module) (w : Module) : Prop where
  fresh : w.fresh? = some ⟨[.i32 65536, .i32 65536], ⟨fun _ => 0, 2, some 1024⟩, 0⟩
  allocator : w.callee? 0 =
    some ⟨Memory.allocatorType, [.i32 0, .i32 0], Memory.allocatorBody 0⟩
  function : ∀ (i : Nat) (f : Lir.Function), lir.functions[i]? = some f → ∃ zeros body,
    (siteOf lir f).insts f.body = .ok body ∧
      f.callParams.length + zeros.length = (siteOf lir f).localCount ∧
      w.callee? (i + 1) = some ⟨signature f, zeros,
        (siteOf lir f).saved?.elim [] (siteOf lir f).memory.saveStack ++ body⟩
  exported : ∀ f ∈ lir.functions, f.hasContext = false →
    w.exported? f.name = some (functionIndex f.id)
  functions_lt : lir.functions.size + 1 < UInt32.size
  locals_lt : ∀ f ∈ lir.functions, (siteOf lir f).localCount < UInt32.size

/-- What is generated is the assembled module, which is valid. -/
theorem generate_eq_ok {lir : Lir.Module} {w : Module} :
    generate lir = .ok w ↔ assemble lir = .ok w ∧ w.isValid = true := by
  constructor
  · intro h
    obtain ⟨m, hm, h⟩ := bind_eq_ok.1 h
    split at h
    · rename_i hvalid
      cases h
      exact ⟨hm, hvalid⟩
    · cases h
  · rintro ⟨hw, hvalid⟩
    exact bind_eq_ok.2 ⟨w, hw, by simp only [hvalid, if_true]; rfl⟩

theorem generated_of_generate {lir : Lir.Module} {w : Module} (h : generate lir = .ok w) :
    Generated lir w := by
  obtain ⟨hassemble, hvalid⟩ := generate_eq_ok.1 h
  obtain ⟨types, numbers, codes, hw⟩ := exists_of_assemble hassemble
  exact ⟨hw.fresh_eq, hw.allocator_eq, fun _ _ => hw.callee_eq, fun _ => hw.exported_eq,
    hw.functions_lt hvalid, fun _ => hw.localCount_lt hvalid⟩

end StaticChain.Wasm

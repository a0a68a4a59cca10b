import Mathlib.Data.List.Forall2
import Mathlib.Data.List.Nodup
import Mathlib.Data.Option.Basic
import StaticChain.Proofs.Wasm.Checking

/-!
# Generated modules are valid

The module of a type-correct program passes validation (`exists_generate_eq_ok`). Three things have to hold:
it can be put together, which needs different names for what it exports (`exists_assemble`); the code of each
function is well typed in the context of the module (`siteOf_fits`, `codeIsValid_of_checks`); and the limits
that readers of modules share are kept (`Module.KeepsLimits`), which is all that is asked for beyond the
program being type-correct.
-/

namespace StaticChain.Wasm

open Lir (ValueId LocalId Inst Ty)

/-! ## Bodies -/

theorem ValType.hasDefault_of_isRef {ty : ValType} (h : ty.isRef = false) : ty.hasDefault = true := by
  cases ty with
  | ref type => cases h
  | _ => rfl

/-- A body that leaves the results of its function is well typed. -/
theorem Checks.checkBody {c : Context} {body : List Instr}
    (h : Checks c [c.results] body [] c.results.reverse) (hlocals : ∀ ty ∈ c.locals, ty.isRef = false)
    (hresults : ∀ ty ∈ c.results, ty.isRef = false) (params : Nat) : c.checkBody params body = true := by
  have hunset : c.unsetLocals params = [] := by
    unfold Context.unsetLocals
    rw [List.filter_eq_nil_iff]
    intro i _
    cases hi : c.locals[i]? with
    | none => simp
    | some ty => simp [ValType.hasDefault_of_isRef (hlocals ty (Array.mem_of_getElem? hi))]
  obtain ⟨p, hcheck, hp⟩ := h { unset := c.unsetLocals params } ⟨⟨[], rfl, .inl rfl⟩, hunset⟩
  simp [Context.checkBody, hcheck, hp.leaves hresults]

/-- The context in which the code of a function is checked. -/
def Context.inside (c : Context) (type : FuncType) (locals : List ValType) : Context :=
  { c with locals := (type.params ++ locals).toArray, results := type.results }

theorem codeIsValid_of_checks {c : Context} {type : FuncType} (ht : type.IsNumeric) {locals : List ValType}
    (hlocals : ∀ ty ∈ locals, ty.isRef = false) {body : List Instr}
    (h : Checks (c.inside type locals) [type.results] body [] type.results.reverse)
    (hcount : type.params.length + locals.length ≤ Get.maxLocals)
    (hsize : (Code.mk locals (Memory.bodyTokens body)).bytes.length ≤ maxCodeSize) :
    Module.codeIsValid c type ⟨locals, Memory.bodyTokens body⟩ = true := by
  have hmapM : locals.mapM c.types.val? = some locals := mapM_renumber? _ hlocals
  have hbody : (c.inside type locals).checkBody type.params.length body = true := by
    refine Checks.checkBody h ?_ ht.2 _
    intro ty hmem
    rcases List.mem_append.1 (List.mem_toArray.1 hmem) with hmem | hmem
    · exact ht.1 ty hmem
    · exact hlocals ty hmem
  simp only [Module.codeIsValid, hmapM, Option.any_some, Instr.ofTokens?_bodyTokens, Bool.and_eq_true,
    decide_eq_true_eq]
  exact ⟨⟨by simpa using hcount, hsize⟩, hbody⟩

theorem allocatorCode_isValid {types : List FuncType} {functions : List Nat} {c : Context}
    (h : Describes types functions c) :
    Module.codeIsValid c Memory.allocatorType (Memory.allocatorCode 0) = true := by
  refine codeIsValid_of_checks (by constructor <;> simp [Memory.allocatorType]) (by simp) ?_ (by decide)
    (by decide +kernel)
  refine Checks.allocatorBody rfl ?_ ?_
  · simp [Context.inside, h.globals]
  · simp [Context.inside, Context.address?, h.memories]

/-! ## Sites -/

section

variable {lir : Lir.Module} {f : Lir.Function} {types : List FuncType} {numbers : List Nat} {c : Context}

theorem mem_of_mem_closureTargets {g : Lir.Function} (h : g ∈ closureTargets lir) : g ∈ lir.functions := by
  simp only [closureTargets, List.mem_map, List.mem_filter] at h
  obtain ⟨⟨g, i⟩, ⟨hmem, -⟩, rfl⟩ := h
  exact Array.mem_toList_iff.1 (List.mem_of_getElem? (List.mem_zipIdx_iff_getElem?.1 hmem))

/-- The locals of generated code: those of the function, a local for each value, and the saved stack
pointer. -/
theorem params_append_locals (h : f.callParams <+: f.locals.toList) :
    (signature f).params ++ (siteOf lir f).locals = f.locals.toList.map ofTy ++
      (f.valueTypes.toList.map ofTy ++ (siteOf lir f).saved?.toList.map fun _ => .i32) := by
  obtain ⟨more, hmore⟩ := h
  simp [signature, Site.locals, ← hmore]

/-- What the code of a function refers to is in the context of its module. -/
theorem siteOf_fits (hdescribes : Describes types (0 :: numbers) c)
    (hallocator : types[0]? = some Memory.allocatorType)
    (hsignatures : List.Forall₂ (fun f i => types[i]? = some (signature f)) lir.functions.toList numbers)
    (hid : ∀ f ∈ lir.functions, lir.function? f.id = some f)
    (hfunctions : lir.functions.size + 1 < UInt32.size) (hparams : f.callParams <+: f.locals.toList)
    (hlocals : (siteOf lir f).localCount < UInt32.size) :
    (siteOf lir f).Fits (c.inside (signature f) (siteOf lir f).locals) := by
  have hget : ∀ i : Nat, (c.inside (signature f) (siteOf lir f).locals).locals[i]? =
      (f.locals.toList.map ofTy ++ (f.valueTypes.toList.map ofTy ++
        (siteOf lir f).saved?.toList.map fun _ => .i32))[i]? := by
    intro i
    rw [← params_append_locals hparams]
    simp [Context.inside]
  have hcount : f.locals.size + f.valueTypes.size ≤ (siteOf lir f).localCount := Nat.le_add_right _ _
  refine ⟨?_, ?_, ?_, ?_, ?_, ?_, ?_, ?_, rfl⟩
  · intro x ty hx
    have hx : f.locals[x.index]? = some ty := hx
    have hlt := (Array.getElem?_eq_some_iff.1 hx).1
    rw [hget, List.getElem?_append_left (by simpa using hlt)]
    simp [hx]
  · intro r ty hr
    have hr : f.valueTypes[r.index]? = some ty := hr
    have hlt := (Array.getElem?_eq_some_iff.1 hr).1
    have hvalue : (siteOf lir f).value r = f.locals.size + r.index :=
      Nat.mod_eq_of_lt (by simp only [siteOf_function]; omega)
    rw [hget, hvalue, List.getElem?_append_right (by simp), List.getElem?_append_left (by simpa using hlt)]
    simp [hr]
  · intro i hi
    have heq : i = f.locals.size + f.valueTypes.size := by
      simp only [Site.saved?] at hi
      split at hi
      · cases hi
        exact Nat.mod_eq_of_lt (by simp only [siteOf_function]; omega)
      · cases hi
    rw [hget, heq, List.getElem?_append_right (by simp), List.getElem?_append_right (by simp), hi]
    simp
  · intro id g hg
    have hg : lir.functions.toList[id.index]? = some g := by simpa [Lir.Module.function?] using hg
    obtain ⟨number, hnumber, htype⟩ := exists_getElem?_of_forall₂ hsignatures hg
    have hlt := (List.getElem?_eq_some_iff.1 hg).1
    have hindex : functionIndex id = id.index + 1 :=
      Nat.mod_eq_of_lt (by simp only [Array.length_toList] at hlt; omega)
    rw [hindex]
    exact hdescribes.function _ _ _ (by simpa using hnumber) htype
  · exact fun g hg => hid g (mem_of_mem_closureTargets hg)
  · exact hdescribes.function 0 0 _ rfl hallocator
  · simp [Context.inside, hdescribes.globals, siteOf]
  · simp [Context.inside, Context.address?, hdescribes.memories]

end

/-! ## Assembling -/

/-- Exports whose names differ from each other and from those before are all added. -/
theorem foldlM_define_eq_ok {lir : Lir.Module} {fs : List Lir.Function} {codes : List Code}
    (h : List.Forall₂ (fun f code => (siteOf lir f).code = .ok code) fs codes) {m : Module}
    (hpending : m.code.length + fs.length ≤ m.functions.length)
    (hnames : (m.exports.map Export.name ++ (fs.filter fun f => !f.hasContext).map Lir.Function.name).Nodup) :
    fs.foldlM (define lir ⟨0, 0, 1, 0⟩) m = .ok { m with
      code := m.code ++ codes
      exports := m.exports ++ (fs.filter fun f => !f.hasContext).map exportOf } := by
  induction h generalizing m with
  | nil => simp [pure, Except.pure]
  | @cons f code fs codes hcode _ ih =>
    have hbody : m.addBody code = .ok { m with code := m.code ++ [code] } := by
      have hne : m.pending ≠ 0 := by
        simp only [Module.pending, List.length_cons] at hpending ⊢
        omega
      simp [Module.addBody, hne]
    have hsite : Site.code ⟨lir, f, ⟨0, 0, 1, 0⟩, closureTargets lir⟩ = .ok code := hcode
    cases hc : f.hasContext with
    | true =>
      have hdefine : define lir ⟨0, 0, 1, 0⟩ m f = .ok { m with code := m.code ++ [code] } := by
        simp only [define, hsite, bind, Except.bind, hbody, hc]
        rfl
      rw [List.foldlM_cons, hdefine]
      refine (ih ?_ ?_).trans ?_
      · simp only [List.length_append, List.length_cons, List.length_nil] at hpending ⊢
        omega
      · simpa [hc] using hnames
      · simp [hc]
    | false =>
      rw [List.filter_cons_of_pos (by simp [hc]), List.map_cons] at hnames
      have hnew : ¬(m.exports.any fun e => e.name == f.name) = true := by
        intro hany
        obtain ⟨e, he, heq⟩ := List.any_eq_true.1 hany
        rw [List.nodup_append] at hnames
        exact hnames.2.2 e.name (List.mem_map_of_mem he) f.name List.mem_cons_self (by simpa using heq)
      have hdefine : define lir ⟨0, 0, 1, 0⟩ m f = .ok { m with
          code := m.code ++ [code], exports := m.exports ++ [exportOf f] } := by
        simp only [define, hsite, bind, Except.bind, hbody, hc, Module.addExport, hnew, exportOf]
        rfl
      rw [List.foldlM_cons, hdefine]
      refine (ih ?_ ?_).trans ?_
      · simp only [List.length_append, List.length_cons, List.length_nil] at hpending ⊢
        omega
      · simpa [exportOf] using hnames
      · simp [hc]

theorem mem_types_declareAll {fs : List Lir.Function} {m : Module} {g : TypeGroup}
    (h : g ∈ (declareAll fs m).types) : g ∈ m.types ∨ ∃ f ∈ fs, g = .func (signature f) := by
  induction fs generalizing m with
  | nil => exact .inl h
  | cons f fs ih =>
    rcases ih h with h | ⟨f', hf', rfl⟩
    · have hadd : g ∈ m.types ∨ g = .func (signature f) := by
        simp only [Module.declare, Module.addType] at h
        split at h
        · exact .inl h
        · simpa using h
      rcases hadd with h | rfl
      · exact .inl h
      · exact .inr ⟨f, List.mem_cons_self, rfl⟩
    · exact .inr ⟨f', List.mem_cons_of_mem _ hf', rfl⟩

/-- What a module is assembled from: its types are those of the functions, which are numbered after the
allocator, and every function has its code. -/
structure Parts (lir : Lir.Module) (types : List FuncType) (numbers : List Nat) (codes : List Code) :
    Prop where
  numeric : ∀ type ∈ types, type.IsNumeric
  allocator : types[0]? = some Memory.allocatorType
  signatures : List.Forall₂ (fun f i => types[i]? = some (signature f)) lir.functions.toList numbers
  codes : List.Forall₂ (fun f code => (siteOf lir f).code = .ok code) lir.functions.toList codes

/-- The exports of an assembled module. -/
def exportsOf (lir : Lir.Module) : List Export :=
  ⟨"memory", .memory, 0⟩ :: (lir.functions.toList.filter fun f => !f.hasContext).map exportOf

/-- The module that is assembled from its parts. The allocator is function zero. -/
def assembled (lir : Lir.Module) (types : List FuncType) (numbers : List Nat) (codes : List Code) : Module :=
  moduleOf types (0 :: numbers) (exportsOf lir) (Memory.allocatorCode 0 :: codes)

/-- A module whose functions all have code and whose exported names differ can be assembled. -/
theorem exists_assemble {lir : Lir.Module}
    (hcode : ∀ f ∈ lir.functions, ∃ code, (siteOf lir f).code = .ok code)
    (hnames : ((exportsOf lir).map Export.name).Nodup) :
    ∃ types numbers codes, Parts lir types numbers codes ∧
      assemble lir = .ok (assembled lir types numbers codes) := by
  obtain ⟨types, numbers, ⟨more, hmore⟩, hsignatures, hdeclare⟩ := declareAll_eq
    (show runtime.types = [Memory.allocatorType].map TypeGroup.func from rfl) lir.functions.toList
  obtain ⟨codes, hcodes⟩ : ∃ codes, List.Forall₂ (fun f code => (siteOf lir f).code = .ok code)
      lir.functions.toList codes := by
    have hcode : ∀ f ∈ lir.functions.toList, ∃ code, (siteOf lir f).code = .ok code := by simpa using hcode
    obtain ⟨codes, hcodes⟩ := exists_mapM_eq_ok hcode
    exact ⟨codes, mapM_eq_ok.1 hcodes⟩
  refine ⟨types, numbers, codes, ⟨?_, by simp [← hmore], hsignatures, hcodes⟩, ?_⟩
  · intro type hmem
    have hmem : TypeGroup.func type ∈ (declareAll lir.functions.toList runtime).types := by
      rw [hdeclare]
      exact List.mem_map_of_mem hmem
    rcases mem_types_declareAll hmem with hmem | ⟨f, -, heq⟩
    · simp only [runtime, List.mem_singleton, TypeGroup.func, TypeGroup.single.injEq, SubType.mk.injEq,
        CompositeType.func.injEq, and_true] at hmem
      rw [hmem]
      constructor <;> simp [Memory.allocatorType]
    · simp only [TypeGroup.func, TypeGroup.single.injEq, SubType.mk.injEq, CompositeType.func.injEq,
        and_true] at heq
      rw [heq]
      exact signature_isNumeric f
  · have hdeclare : declareAll lir.functions.toList runtime =
        moduleOf types (0 :: numbers) runtime.exports runtime.code := hdeclare
    have hlength : numbers.length = codes.length := hsignatures.length_eq.symm.trans hcodes.length_eq
    have hfold := foldlM_define_eq_ok hcodes (m := moduleOf types (0 :: numbers) runtime.exports runtime.code)
      (by simp [moduleOf, runtime, ← hsignatures.length_eq]; omega)
      (by simpa [moduleOf, runtime, exportsOf, exportOf, Function.comp_def] using hnames)
    unfold assemble
    rw [setup_eq]
    simp only [hdeclare]
    refine bind_eq_ok.2 ⟨_, rfl, bind_eq_ok.2 ⟨_, hfold, ?_⟩⟩
    simp [Module.finish, Module.pending, assembled, moduleOf, runtime, exportsOf, hlength]

/-! ## Limits -/

/-- The module is within the limits that readers of modules share: on the number of parts, the length of
names, the size of code and of types, and the number of locals of a function, its parameters among them. -/
structure Module.KeepsLimits (m : Module) : Prop where
  parts : m.isWithinLimits = true
  names : ∀ e ∈ m.exports, e.name.utf8ByteSize ≤ Get.maxName
  code : ∀ code ∈ m.code, code.bytes.length ≤ maxCodeSize
  types : ∀ c, m.context? = some c → Module.totalTypeSize m c < maxTypeSize
  locals : ∀ c, m.context? = some c → ∀ (i : Nat) code type, m.code[i]? = some code →
    c.function? i = some type → type.params.length + code.locals.length ≤ Get.maxLocals

section

variable {lir : Lir.Module} {types : List FuncType} {numbers : List Nat} {codes : List Code}

namespace Parts

/-- A module within the limits has so few functions that their numbers do not wrap around. -/
theorem functions_lt (h : Parts lir types numbers codes)
    (hlimits : (assembled lir types numbers codes).KeepsLimits) : lir.functions.size + 1 < UInt32.size := by
  have hcounts := hlimits.parts
  simp only [Module.isWithinLimits, Bool.and_eq_true, List.all_cons, decide_eq_true_eq] at hcounts
  have hcount := hcounts.1.1.1.1.1.1.2.1
  have hlength := h.signatures.length_eq
  simp only [Module.allFunctions, assembled, moduleOf, List.length_append, List.length_cons] at hcount
  simp only [Array.length_toList] at hlength
  have : maxParts = 1000000 := rfl
  simp only [UInt32.size]
  omega

/-- What the code of the assembled module can refer to. -/
theorem exists_context (h : Parts lir types numbers codes) : ∃ c,
    (assembled lir types numbers codes).context? = some c ∧ Describes types (0 :: numbers) c := by
  refine Wasm.exists_context _ _ h.numeric ?_
  intro i hi
  rcases List.mem_cons.1 hi with rfl | hi
  · exact ⟨_, h.allocator⟩
  · obtain ⟨f, -, htype⟩ := exists_of_forall₂ h.signatures hi
    exact ⟨_, htype⟩

/-- The code of a low-level function is well typed. -/
theorem codeIsValid (h : Parts lir types numbers codes) {c : Context}
    (hdescribes : Describes types (0 :: numbers) c) (hid : ∀ f ∈ lir.functions, lir.function? f.id = some f)
    (hfunctions : lir.functions.size + 1 < UInt32.size) {f : Lir.Function} (ht : f.Typed lir) {code : Code}
    (hcode : (siteOf lir f).code = .ok code)
    (hlocals : (signature f).params.length + code.locals.length ≤ Get.maxLocals)
    (hsize : code.bytes.length ≤ maxCodeSize) : Module.codeIsValid c (signature f) code = true := by
  obtain ⟨body, hbody, hleaves⟩ := Site.exists_code (s := siteOf lir f) ht
  cases Except.ok.inj (hcode.symm.trans hbody)
  have hcount : (siteOf lir f).localCount < UInt32.size := by
    have hle := ht.params.length_le
    have hlength := (siteOf lir f).locals_length
    have : Get.maxLocals = 50000 := rfl
    simp only [siteOf_function, Array.length_toList] at hle hlength
    simp only [signature, List.length_map] at hlocals
    simp only [Site.localCount, siteOf_function, UInt32.size]
    omega
  have hint : ∀ ty ∈ (siteOf lir f).locals, ty.isRef = false := by
    intro ty hmem
    rcases Site.locals_int _ ty hmem with rfl | rfl <;> rfl
  have hfits := siteOf_fits hdescribes h.allocator h.signatures hid hfunctions ht.params hcount
  exact codeIsValid_of_checks (signature_isNumeric f) hint (hleaves _ _ _ hfits) hlocals hsize

/-- The exports name the memory and functions that are there. -/
theorem exportIsValid (h : Parts lir types numbers codes) {c : Context}
    (hdescribes : Describes types (0 :: numbers) c) (hid : ∀ f ∈ lir.functions, lir.function? f.id = some f)
    (hlimits : (assembled lir types numbers codes).KeepsLimits) {e : Export} (he : e ∈ exportsOf lir) :
    Module.exportIsValid c e = true := by
  have hname := hlimits.names e he
  rcases List.mem_cons.1 he with rfl | he
  · simp [Module.exportIsValid, hname, hdescribes.memories]
  · obtain ⟨f, hf, rfl⟩ := List.mem_map.1 he
    have hlt : functionIndex f.id < c.functions.size := by
      have hget := hid f (by simpa using (List.mem_filter.1 hf).1)
      have hlt := (Array.getElem?_eq_some_iff.1 hget).1
      have hfunctions := h.functions_lt hlimits
      have hlength := h.signatures.length_eq
      rw [Array.length_toList] at hlength
      rw [functionIndex, index32, Nat.mod_eq_of_lt (by omega), hdescribes.functions_size, List.length_cons]
      omega
    exact Bool.and_eq_true_iff.2 ⟨decide_eq_true hname, decide_eq_true hlt⟩

theorem partsAreValid (h : Parts lir types numbers codes) {c : Context}
    (hdescribes : Describes types (0 :: numbers) c) (hid : ∀ f ∈ lir.functions, lir.function? f.id = some f)
    (hnames : ((exportsOf lir).map Export.name).Nodup)
    (hlimits : (assembled lir types numbers codes).KeepsLimits) :
    (assembled lir types numbers codes).partsAreValid c = true := by
  have hglobals : Module.globalsAreValid c 0 runtime.globals = true := by
    simp only [runtime, List.replicate, Module.globalsAreValid, hdescribes.globals]
    rfl
  have hmemories : runtime.memories.all MemoryType.isValid = true := by decide
  have hexports : (exportsOf lir).all (Module.exportIsValid c) = true :=
    List.all_eq_true.2 fun e he => h.exportIsValid hdescribes hid hlimits he
  have htags : (c.tags.all fun type => type.results.isEmpty) = true := by simp [hdescribes.tags]
  simp only [Module.partsAreValid, Bool.and_eq_true]
  -- No tables, start function or segments stand in the module.
  exact ⟨⟨⟨⟨⟨⟨⟨⟨⟨rfl, rfl⟩, hmemories⟩, htags⟩, hglobals⟩, hexports⟩, decide_eq_true hnames⟩, rfl⟩, rfl⟩, rfl⟩

theorem bodiesAreValid (h : Parts lir types numbers codes) {c : Context}
    (hcontext : (assembled lir types numbers codes).context? = some c)
    (hdescribes : Describes types (0 :: numbers) c) (ht : ∀ f ∈ lir.functions, f.Typed lir)
    (hid : ∀ f ∈ lir.functions, lir.function? f.id = some f)
    (hlimits : (assembled lir types numbers codes).KeepsLimits) :
    (assembled lir types numbers codes).bodiesAreValid c = true := by
  have hlength : codes.length = numbers.length := h.codes.length_eq.symm.trans h.signatures.length_eq
  simp only [Module.bodiesAreValid, assembled, moduleOf, List.length_cons, hlength, Bool.and_eq_true,
    beq_self_eq_true, true_and, List.all_eq_true, Module.allFunctions, Module.imported, runtime,
    List.filterMap_nil, List.nil_append, Nat.sub_self, Nat.zero_add, Prod.forall]
  intro code i hmem
  have hi := List.mem_zipIdx_iff_getElem?.1 hmem
  rw [Option.any_eq_true]
  cases i with
  | zero =>
    cases hi
    exact ⟨_, hdescribes.function 0 0 _ rfl h.allocator, allocatorCode_isValid hdescribes⟩
  | succ i =>
    have hi : codes[i]? = some code := by simpa using hi
    obtain ⟨f, hf, hcode⟩ := exists_getElem?_of_forall₂ h.codes.flip hi
    obtain ⟨number, hnumber, htype⟩ := exists_getElem?_of_forall₂ h.signatures hf
    have hfunction : c.function? (i + 1) = some (signature f) :=
      hdescribes.function _ _ _ (by simpa using hnumber) htype
    have hall : (assembled lir types numbers codes).code[i + 1]? = some code := by
      simpa [assembled, moduleOf] using hi
    exact ⟨_, hfunction, h.codeIsValid hdescribes hid (h.functions_lt hlimits)
      (ht f (by simpa using List.mem_of_getElem? hf)) hcode (hlimits.locals c hcontext _ _ _ hall hfunction)
      (hlimits.code _ (List.mem_of_getElem? hall))⟩

/-- A module that is put together from the code of functions that fit their types is valid. -/
theorem isValid (h : Parts lir types numbers codes) (ht : ∀ f ∈ lir.functions, f.Typed lir)
    (hid : ∀ f ∈ lir.functions, lir.function? f.id = some f)
    (hnames : ((exportsOf lir).map Export.name).Nodup)
    (hlimits : (assembled lir types numbers codes).KeepsLimits) :
    (assembled lir types numbers codes).isValid = true := by
  obtain ⟨c, hcontext, hdescribes⟩ := h.exists_context
  simp only [Module.isValid, hlimits.parts, hcontext, Option.any_some, hlimits.types c hcontext,
    h.partsAreValid hdescribes hid hnames hlimits, h.bodiesAreValid hcontext hdescribes ht hid hlimits,
    decide_true, Bool.and_self]

end Parts

end

/-- A valid module is within the limits. -/
theorem Module.keepsLimits_of_isValid {m : Module} (h : m.isValid = true) (hi : m.imports = []) :
    m.KeepsLimits := by
  simp only [Module.isValid, Bool.and_eq_true, Option.any_eq_true, decide_eq_true_eq] at h
  obtain ⟨hlimits, c, hcontext, ⟨htypes, hparts⟩, hbodies⟩ := h
  simp only [Module.partsAreValid, Bool.and_eq_true, List.all_eq_true] at hparts
  obtain ⟨⟨⟨⟨⟨-, hexports⟩, -⟩, -⟩, -⟩, -⟩ := hparts
  have hcode : ∀ (i : Nat) code, m.code[i]? = some code →
      ∃ type, c.function? i = some type ∧ Module.codeIsValid c type code = true := by
    intro i code hget
    simp only [Module.bodiesAreValid, Bool.and_eq_true, List.all_eq_true] at hbodies
    have hbody := hbodies.2 (code, i) (List.mem_zipIdx_iff_getElem?.2 hget)
    simpa [Module.allFunctions, Module.imported, hi, Option.any_eq_true] using hbody
  refine ⟨hlimits, ?_, ?_, ?_, ?_⟩
  · intro e he
    have hvalid := hexports e he
    simp only [Module.exportIsValid, Bool.and_eq_true, decide_eq_true_eq] at hvalid
    exact hvalid.1
  · intro code hmem
    obtain ⟨i, hget⟩ := List.getElem?_of_mem hmem
    obtain ⟨type, -, hvalid⟩ := hcode i code hget
    simp only [Module.codeIsValid, Option.any_eq_true, Bool.and_eq_true, decide_eq_true_eq] at hvalid
    obtain ⟨locals, -, ⟨-, hsize⟩, -⟩ := hvalid
    exact hsize
  · intro c' hcontext'
    cases Option.some.inj (hcontext.symm.trans hcontext')
    exact htypes
  · intro c' hcontext' i code type hget hfunction
    cases Option.some.inj (hcontext.symm.trans hcontext')
    obtain ⟨type', hfunction', hvalid⟩ := hcode i code hget
    cases Option.some.inj (hfunction.symm.trans hfunction')
    simp only [Module.codeIsValid, Option.any_eq_true, Bool.and_eq_true, decide_eq_true_eq] at hvalid
    obtain ⟨locals, hlocals, ⟨hcount, -⟩, -⟩ := hvalid
    have hlength := length_of_mapM_eq_some hlocals
    simp only [List.size_toArray, List.length_append] at hcount
    omega

end StaticChain.Wasm

/-! ## Programs -/

namespace StaticChain

open Wasm

namespace Program

variable (p : Program)

/-- The functions at the top of a program. -/
def rootFunctions : List Declaration :=
  p.declarations.toList.filter fun decl => decl.parent.isNone && decl.kind matches .function _

def rootFunctionNames : List String := p.rootFunctions.map Declaration.name

variable {p}

theorem mem_rootFunctions {id : DeclId} {decl : Declaration} {function : FunctionDecl}
    (hd : p.decl? id = some decl) (hk : decl.kind = .function function) (hroot : decl.parent = none) :
    decl ∈ p.rootFunctions :=
  List.mem_filter.2 ⟨mem_of_decl? hd, by simp [hk, hroot]⟩

theorem qualifiedName_of_root {id : DeclId} {decl : Declaration} (hd : p.decl? id = some decl)
    (hroot : decl.parent = none) : p.qualifiedName id = decl.name := by
  have hpar : p.parent? id = none := by simp [parent?, hd, hroot]
  simp [qualifiedName, hd, pathNames, Checked.ancestors_of_root hpar]

end Program

/-- An exported function is a function at the top of the program, under its own name. -/
theorem Nesting.LoweredTo.exists_root {n : Nesting} {id : DeclId} {f : Lir.Function} (h : n.LoweredTo id f)
    (hs : n.scope.nesting = n) (hc : f.hasContext = false) : ∃ decl function, n.program.decl? id = some decl ∧
      decl.kind = .function function ∧ decl.parent = none ∧ f.decl = id ∧ f.name = decl.name := by
  obtain ⟨_, _, -, -, hcode⟩ := h
  cases hcode with | @mk decl function _ _ _ _ _ _ _ _ _ _ _ _ _ _ _ _ hd hk =>
  rw [hs] at hd
  have hroot : decl.parent = none := by simpa using hc
  refine ⟨decl, function, hd, hk, hroot, rfl, ?_⟩
  rw [hs]
  exact Program.qualifiedName_of_root hd hroot

/-- Functions at the top of the program have different names, so all exports do. -/
theorem Nesting.Lowers.exports_nodup {n : Nesting} {policy : FramePolicy} {m : Lir.Module}
    (hm : n.Lowers policy m) (hdistinct : n.program.rootFunctionNames.Nodup)
    (hmemory : "memory" ∉ n.program.rootFunctionNames) :
    ((exportsOf m).map Export.name).Nodup := by
  have hroot : ∀ f ∈ m.functions.toList.filter fun f => !f.hasContext,
      ∃ decl ∈ n.program.rootFunctions, f.decl = decl.id ∧ f.name = decl.name := by
    intro f hf
    obtain ⟨hmem, hc⟩ := List.mem_filter.1 hf
    obtain ⟨id, -, hlowered⟩ := exists_of_forall₂ hm.functions hmem
    obtain ⟨decl, function, hd, hk, hnone, hid, hname⟩ :=
      hlowered.exists_root n.scope_nesting (by simpa using hc)
    refine ⟨decl, Program.mem_rootFunctions hd hk hnone, ?_, hname⟩
    rw [hid, hm.built.checked.decl_id hd]
  have hdecls : (m.functions.toList.map Lir.Function.decl).Nodup := by
    have heq : n.functionOrder = m.functions.toList.map Lir.Function.decl := by
      rw [← List.forall₂_eq_eq_eq, List.forall₂_map_right_iff]
      exact hm.functions.imp fun id f h => (h.hasContext n.scope_nesting).1.symm
    exact heq ▸ functionOrder_nodup hm.built.checked hm.distinct
  have hnames : ((exportsOf m).map Export.name) =
      "memory" :: (m.functions.toList.filter fun f => !f.hasContext).map Lir.Function.name := by
    simp [exportsOf, exportOf, Function.comp_def]
  rw [hnames, List.nodup_cons]
  constructor
  · intro hmem
    obtain ⟨f, hf, hname⟩ := List.mem_map.1 hmem
    obtain ⟨decl, hd, -, hname'⟩ := hroot f hf
    exact hmemory (List.mem_map.2 ⟨decl, hd, hname'.symm.trans hname⟩)
  · refine List.Nodup.map_on ?_ ((List.Nodup.of_map _ hdecls).filter _)
    intro f hf g hg heq
    obtain ⟨declf, hdf, hidf, hnamef⟩ := hroot f hf
    obtain ⟨declg, hdg, hidg, hnameg⟩ := hroot g hg
    have hsame : declf = declg :=
      List.inj_on_of_nodup_map hdistinct hdf hdg (hnamef.symm.trans (heq.trans hnameg))
    exact List.inj_on_of_nodup_map hdecls (List.mem_of_mem_filter hf) (List.mem_of_mem_filter hg)
      (hidf.trans (hsame ▸ hidg.symm))

/-- A type-correct program that can be lowered is compiled to a valid module, if its functions at the top
have different names, none of them that of the memory, and the module is within the limits. -/
theorem exists_generate_eq_ok {p : Program} (hp : p.check = .ok ()) (hc : p.ChildrenDistinct)
    (htyped : p.TypeCorrect) (hreturns : p.ReturnsMatch) (hdistinct : p.rootFunctionNames.Nodup)
    (hmemory : "memory" ∉ p.rootFunctionNames) {policy : FramePolicy} {n : Nesting}
    (hn : Nesting.of p policy = .ok n) {lir : Lir.Module} (hlower : n.lower = .ok lir)
    (hlimits : ∀ w, assemble lir = .ok w → w.KeepsLimits) :
    ∃ w, generate lir = .ok w ∧ w.isValid = true := by
  obtain ⟨rfl, hbuilt⟩ := Nesting.built_of_eq_ok (Program.checked_of_check hp) hn
  have hm : n.Lowers policy lir := Nesting.lowers_of_lower hbuilt hc hlower
  have hfunctions : ∀ f ∈ lir.functions, f.Typed lir := fun f hf => hm.typed htyped hreturns hf
  have hid : ∀ f ∈ lir.functions, lir.function? f.id = some f := by
    intro f hf
    obtain ⟨i, hi⟩ := Array.getElem?_of_mem hf
    exact hm.function?_id (show lir.function? ⟨i⟩ = some f from hi)
  have hnames := hm.exports_nodup hdistinct hmemory
  have hcode : ∀ f ∈ lir.functions, ∃ code, (siteOf lir f).code = .ok code := by
    intro f hf
    obtain ⟨body, hbody, -⟩ := Site.exists_code (s := siteOf lir f) (hfunctions f hf)
    exact ⟨_, hbody⟩
  obtain ⟨types, numbers, codes, hparts, hassemble⟩ := exists_assemble hcode hnames
  have hvalid := hparts.isValid hfunctions hid hnames (hlimits _ hassemble)
  exact ⟨_, generate_eq_ok.2 ⟨hassemble, hvalid⟩, hvalid⟩

/-- The running total is compiled to a valid module. -/
theorem exists_generate_eq_ok_tally : ∃ n lir w, Nesting.of tally .escapeAnalysis = .ok n ∧
    n.lower = .ok lir ∧ (∀ w, assemble lir = .ok w → w.KeepsLimits) ∧ generate lir = .ok w ∧
      w.isValid = true := by
  obtain ⟨u, hu⟩ := exists_of_isOk (show (({} : Settings).compile tally).isOk = true by decide +kernel)
  have hknown : (({} : Settings).compile tally).toOption.any (fun u => (generate u.lir).isOk) = true := by
    decide +kernel
  simp only [hu, Except.toOption, Option.any_some] at hknown
  obtain ⟨w, hw⟩ := exists_of_isOk hknown
  obtain ⟨hassemble, hvalid⟩ := generate_eq_ok.1 hw
  have hlimits : ∀ w', assemble u.lir = .ok w' → w'.KeepsLimits := by
    intro w' hw'
    cases Except.ok.inj (hassemble.symm.trans hw')
    obtain ⟨_, _, _, hassembled⟩ := exists_of_assemble hassemble
    exact Module.keepsLimits_of_isValid hvalid hassembled.imports_eq
  obtain ⟨n, hn, hlower⟩ := Nesting.exists_of_compile hu
  obtain ⟨w, hgenerate, hvalid⟩ := exists_generate_eq_ok tally_check tally_childrenDistinct tally_typeCorrect
    tally_returnsMatch (by decide) (by decide) hn hlower hlimits
  exact ⟨n, u.lir, w, hn, hlower, hlimits, hgenerate, hvalid⟩

end StaticChain

import StaticChain.Proofs.Wasm.Emitted
import StaticChain.Proofs.Wasm.Roundtrip
import StaticChain.Proofs.Wasm.Validity
import StaticChain.Wasm.Summary

/-!
# Binaries describe low-level modules

The parts of a generated module are read back from their forms (`readable_of_generate`), so the module is read
back from its binary, which is valid as the module is (`isValidBinary_bytes`). What is read describes the
low-level module (`bytes_describe`): there is a type for every signature, each listed once (`nodup_declareAll`),
the functions follow the allocator in their order, and those without context are exported with the memory
(`Module.Presents`).
-/

namespace StaticChain.Wasm

/-! ## Types are listed once -/

theorem Module.nodup_addType {m : Module} (h : m.types.Nodup) (type : FuncType) :
    (m.addType type).2.types.Nodup := by
  unfold Module.addType
  cases hfind : m.types.findIdx? (· == .func type) with
  | some i => exact h
  | none =>
    have hnew : TypeGroup.func type ∉ m.types := by
      intro hmem
      simpa using List.findIdx?_eq_none_iff.1 hfind _ hmem
    rw [List.nodup_append]
    refine ⟨h, by simp, ?_⟩
    rintro _ hold _ hmem rfl
    cases List.mem_singleton.1 hmem
    exact hnew hold

theorem nodup_declareAll {m : Module} (h : m.types.Nodup) (fs : List Lir.Function) :
    (declareAll fs m).types.Nodup := by
  induction fs generalizing m with
  | nil => exact h
  | cons f fs ih => exact ih (m.nodup_addType h (signature f))

theorem types_of_assemble {lir : Lir.Module} {w : Module} (h : assemble lir = .ok w) :
    w.types = (declareAll lir.functions.toList runtime).types := by
  unfold assemble at h
  rw [setup_eq] at h
  obtain ⟨_, ⟨⟩, h⟩ := bind_eq_ok.1 h
  obtain ⟨m, hfold, h⟩ := bind_eq_ok.1 h
  obtain ⟨_, -, rfl, -⟩ := foldlM_define hfold
  unfold Module.finish at h
  split at h
  · cases h
    rfl
  · cases h

/-- An assembled module is put together from its parts, and lists every type once. -/
theorem exists_assembled {lir : Lir.Module} {w : Module} (h : assemble lir = .ok w) :
    ∃ types numbers codes, Parts lir types numbers codes ∧ types.Nodup ∧
      w = assembled lir types numbers codes := by
  obtain ⟨_, _, codes, hw⟩ := exists_of_assemble h
  have hcode : ∀ f ∈ lir.functions, ∃ code, (siteOf lir f).code = .ok code := by
    intro f hf
    obtain ⟨i, hi⟩ := Array.getElem?_of_mem hf
    obtain ⟨code, -, hcode⟩ := exists_getElem?_of_forall₂ hw.bodies (by simpa using hi)
    exact ⟨code, hcode⟩
  have hnames : ((exportsOf lir).map Export.name).Nodup := by
    have hexports : w.exports = exportsOf lir := hw.exports_eq
    exact hexports ▸ hw.exports_nodup
  obtain ⟨types, numbers, codes, hparts, hassemble⟩ := exists_assemble hcode hnames
  cases Except.ok.inj (h.symm.trans hassemble)
  have htypes : (assembled lir types numbers codes).types.Nodup := by
    rw [types_of_assemble h]
    exact nodup_declareAll (by simp [runtime]) _
  exact ⟨types, numbers, codes, hparts, List.Nodup.of_map _ htypes, rfl⟩

/-! ## Reading back -/

namespace Parts

variable {lir : Lir.Module} {types : List FuncType} {numbers : List Nat} {codes : List Code}

/-- Every function type is listed, so few types have few numbers. -/
theorem number_lt (h : Parts lir types numbers codes) {i : Nat} (hi : i ∈ 0 :: numbers) : i < types.length := by
  rcases List.mem_cons.1 hi with rfl | hi
  · exact (List.getElem?_eq_some_iff.1 h.allocator).1
  · obtain ⟨f, -, htype⟩ := exists_of_forall₂ h.signatures hi
    exact (List.getElem?_eq_some_iff.1 htype).1

/-- A valid module has few types, and each has few parameters and results. -/
theorem types_within (hlimits : (assembled lir types numbers codes).isWithinLimits = true) :
    types.length ≤ maxParts ∧
      ∀ type ∈ types, type.params.length ≤ maxArity ∧ type.results.length ≤ maxArity := by
  simp only [Module.isWithinLimits, Bool.and_eq_true, List.all_eq_true, List.forall_mem_cons,
    decide_eq_true_eq] at hlimits
  obtain ⟨⟨⟨⟨⟨⟨⟨hcount, -⟩, -⟩, -⟩, -⟩, -⟩, -⟩, hwithin⟩ := hlimits
  rw [Module.members_eq (show (assembled lir types numbers codes).types = types.map TypeGroup.func from rfl)]
    at hcount hwithin
  refine ⟨by simpa using hcount, fun type hmem => ?_⟩
  simpa [CompositeType.isWithinLimits] using hwithin _ (List.mem_map_of_mem hmem)

theorem readable (h : Parts lir types numbers codes) (hv : (assembled lir types numbers codes).isValid = true) :
    (assembled lir types numbers codes).Readable := by
  have hlimits := Module.keepsLimits_of_isValid hv rfl
  obtain ⟨hcount, harity⟩ := types_within hlimits.parts
  exact {
    types := by
      intro t ht
      obtain ⟨type, hmem, rfl⟩ := List.mem_map.1 ht
      obtain ⟨hparams, hresults⟩ := harity type hmem
      exact TypeGroup.reads_func (h.numeric type hmem) (Nat.lt_of_le_of_lt hparams (by decide))
        (Nat.lt_of_le_of_lt hresults (by decide))
    imports := nofun
    functions := fun i hi => Nat.lt_of_lt_of_le (h.number_lt hi) (Nat.le_trans hcount (by decide))
    tables := nofun
    memories := by
      intro t ht
      cases List.mem_singleton.1 ht
      exact fun _ => rfl
    tags := nofun
    globals := by
      intro g hg
      cases List.eq_of_mem_replicate hg
      exact fun _ => rfl
    exports := by
      intro e he
      refine Export.reads (hlimits.names e he) ?_
      rcases List.mem_cons.1 he with rfl | he
      · decide
      · obtain ⟨f, -, rfl⟩ := List.mem_map.1 he
        exact functionIndex_lt f.id
    start := nofun
    elements := nofun
    dataCount := nofun
    code := by
      intro code hmem
      refine ⟨Nat.lt_of_le_of_lt (hlimits.code code hmem) (by decide), ?_⟩
      rcases List.mem_cons.1 hmem with rfl | hcode
      · exact Module.reads_code hv hmem (by simp) Memory.basicCode_allocatorBody
      · obtain ⟨f, -, hf⟩ := exists_of_forall₂ h.codes hcode
        obtain ⟨body, rfl, hbasic⟩ := Site.exists_basicCode hf
        refine Module.reads_code hv hmem ?_ hbasic
        intro ty hty
        rcases Site.locals_int _ ty hty with rfl | rfl <;> rfl
    data := nofun
    bodies := by
      have hlength : numbers.length = codes.length := h.signatures.length_eq.symm.trans h.codes.length_eq
      simp [assembled, moduleOf, hlength] }

end Parts

theorem readable_of_generate {lir : Lir.Module} {w : Module} (hw : generate lir = .ok w) : w.Readable := by
  obtain ⟨hassemble, hv⟩ := generate_eq_ok.1 hw
  obtain ⟨_, _, _, hparts, -, rfl⟩ := exists_assembled hassemble
  exact hparts.readable hv

/-- The binary of a generated module is valid. -/
theorem isValidBinary_bytes {lir : Lir.Module} {w : Module} (hw : generate lir = .ok w)
    (hsizes : ∀ s ∈ w.sections, s.content.length < UInt32.size) : isValidBinary w.bytes = true := by
  simp [isValidBinary, (readable_of_generate hw).ofBytes?_bytes hsizes, (generate_eq_ok.1 hw).2]

/-! ## Descriptions -/

/-- The module offers what the low-level module holds: the allocator and its functions under their types, and
those without context, and the memory, under their names. -/
structure Module.Presents (w : Module) (lir : Lir.Module) : Prop where
  function_count : w.functions.length = lir.functions.size + 1
  allocator_type : ∃ t, w.functions[0]? = some t ∧ w.funcType? t = some ⟨[.i32], [.i32]⟩
  /-- Functions follow the allocator in their order. Numbers are 64 bits wide, addresses and closures 32. -/
  function_type : ∀ (i : Nat) f, lir.functions[i]? = some f → ∃ t, w.functions[i + 1]? = some t ∧
    w.funcType? t = some
      ⟨f.callParams.map fun | .i64 => .i64 | .ptr | .closure => .i32,
        f.ret.toList.map fun | .i64 => .i64 | .ptr | .closure => .i32⟩
  /-- Functions share the number of a type just if their types are equal. -/
  type_shared : ∀ (i j s t : Nat), w.functions[i]? = some s → w.functions[j]? = some t →
    (s = t ↔ w.funcType? s = w.funcType? t)
  types_nodup : w.types.Nodup
  exports_eq : w.exports = ⟨"memory", .memory, 0⟩ ::
    (lir.functions.toList.filter fun f => !f.hasContext).map fun f => ⟨f.name, .func, f.id.index + 1⟩

/-- A module is presented by what it is assembled from. -/
theorem Parts.presents {lir : Lir.Module} {types : List FuncType} {numbers : List Nat} {codes : List Code}
    (h : Parts lir types numbers codes) (hnodup : types.Nodup)
    (hv : (assembled lir types numbers codes).isValid = true)
    (hid : ∀ (i : Nat) f, lir.functions[i]? = some f → f.id = ⟨i⟩) :
    (assembled lir types numbers codes).Presents lir := by
  have htype := Module.funcType?_eq (show (assembled lir types numbers codes).types =
    types.map TypeGroup.func from rfl)
  have hsignature : ofTy = fun | .i64 => .i64 | .ptr | .closure => .i32 := by
    funext ty
    cases ty <;> rfl
  have hcount := h.functions_lt (Module.keepsLimits_of_isValid hv rfl)
  exact {
    function_count := by
      have hlength := h.signatures.length_eq
      simp only [Array.length_toList] at hlength
      simp [assembled, moduleOf, hlength]
    allocator_type := ⟨0, rfl, by rw [htype, h.allocator]; rfl⟩
    function_type := by
      intro i f hf
      obtain ⟨t, ht, hty⟩ := exists_getElem?_of_forall₂ h.signatures (by simpa using hf)
      refine ⟨t, ht, ?_⟩
      rw [htype, hty, signature, hsignature]
    type_shared := by
      intro i j s t hs ht
      have hslt := h.number_lt (List.mem_of_getElem? hs)
      refine ⟨fun heq => heq ▸ rfl, fun heq => ?_⟩
      rw [htype, htype] at heq
      exact (List.getElem?_inj hslt hnodup).1 heq
    types_nodup := hnodup.map fun _ _ heq => by simpa [TypeGroup.func] using heq
    exports_eq := by
      have hexport : ∀ f ∈ lir.functions.toList, exportOf f = ⟨f.name, .func, f.id.index + 1⟩ := by
        intro f hf
        obtain ⟨i, hi⟩ := List.getElem?_of_mem hf
        have hlt : i < lir.functions.size := by simpa using (List.getElem?_eq_some_iff.1 hi).1
        have hindex : functionIndex f.id = f.id.index + 1 := by
          rw [hid i f (by simpa using hi)]
          exact Nat.mod_eq_of_lt (show i + 1 < UInt32.size by omega)
        rw [exportOf, hindex]
      exact congrArg _ (List.map_congr_left fun f hf => hexport f (List.mem_of_mem_filter hf)) }

theorem presents_of_generate {lir : Lir.Module} {w : Module} (hw : generate lir = .ok w)
    (hid : ∀ (i : Nat) f, lir.functions[i]? = some f → f.id = ⟨i⟩) : w.Presents lir := by
  obtain ⟨hassemble, hv⟩ := generate_eq_ok.1 hw
  obtain ⟨_, _, _, hparts, hnodup, rfl⟩ := exists_assembled hassemble
  exact hparts.presents hnodup hv hid

/-- The binary of a low-level module describes it: it is read back as the module that was generated, which
presents the functions, and its summary gives their number and the exported names. The size of a section is
written as a number of 32 bits, so there is no binary if one does not fit. -/
theorem bytes_describe {lir : Lir.Module} {w : Module} (hw : generate lir = .ok w)
    (hid : ∀ (i : Nat) f, lir.functions[i]? = some f → f.id = ⟨i⟩)
    (hsizes : ∀ s ∈ w.sections, s.content.length < UInt32.size) :
    Module.ofBytes? w.bytes = some w ∧ w.Presents lir ∧
      Summary.of w.bytes = .ok ⟨lir.functions.size + 1,
        (lir.functions.toList.filter fun f => !f.hasContext).map Lir.Function.name, ["memory"]⟩ := by
  have hreadable := readable_of_generate hw
  have hpresents := presents_of_generate hw hid
  refine ⟨hreadable.ofBytes?_bytes hsizes, hpresents, ?_⟩
  rw [hreadable.summary_eq hsizes, hpresents.function_count, hpresents.exports_eq]
  simp [List.filter_map, Function.comp_def]

/-- The running total has four functions, two of which can be called from outside. -/
theorem bytes_describe_tally : ∃ u w, ({} : Settings).compile tally = .ok u ∧ generate u.lir = .ok w ∧
    (∀ (i : Nat) f, u.lir.functions[i]? = some f → f.id = ⟨i⟩) ∧
    (∀ s ∈ w.sections, s.content.length < UInt32.size) ∧
    Module.ofBytes? w.bytes = some w ∧ w.Presents u.lir ∧
    Summary.of w.bytes = .ok ⟨5, ["main", "offset"], ["memory"]⟩ := by
  obtain ⟨u, hu⟩ := exists_of_isOk (show (({} : Settings).compile tally).isOk = true by decide +kernel)
  have hknown : (({} : Settings).compile tally).toOption.any (fun u =>
      u.lir.functions.toList.zipIdx.all (fun p => p.1.id == ⟨p.2⟩) &&
        u.lir.functions.size == 4 &&
        (u.lir.functions.toList.filter fun f => !f.hasContext).map Lir.Function.name == ["main", "offset"] &&
        (generate u.lir).toOption.any fun w => w.sections.all (·.content.length < UInt32.size)) = true := by
    decide +kernel
  simp only [hu, Except.toOption, Option.any_some, Bool.and_eq_true, beq_iff_eq, List.all_eq_true] at hknown
  obtain ⟨⟨⟨hids, hcount⟩, hnames⟩, hsizes⟩ := hknown
  cases hw : generate u.lir with
  | error e => simp [hw] at hsizes
  | ok w =>
    have hid : ∀ (i : Nat) f, u.lir.functions[i]? = some f → f.id = ⟨i⟩ := by
      intro i f hf
      exact hids (f, i) (List.mem_zipIdx_iff_getElem?.2 (by simpa using hf))
    have hsizes : ∀ s ∈ w.sections, s.content.length < UInt32.size := by
      simpa [hw] using hsizes
    obtain ⟨hread, hpresents, hsummary⟩ := bytes_describe hw hid hsizes
    rw [hcount, hnames] at hsummary
    exact ⟨u, w, hu, hw, hid, hsizes, hread, hpresents, hsummary⟩

end StaticChain.Wasm

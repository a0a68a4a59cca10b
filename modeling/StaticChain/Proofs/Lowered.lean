import StaticChain.Project.Compilation
import StaticChain.Proofs.Emission

/-!
# The functions of a lowered program

`Nesting.Lowers` collects what is known of a module that a program was lowered to: a call of a
declared function names the function that its code describes, and there are no other functions.
Numbers of functions are positions in the pre-order, which meets no function twice.
-/

namespace StaticChain

open Lir (FunctionId)

namespace Scope

theorem register_of_not_mem {s : Scope} {id : DeclId} (h : id ∉ s.functions) :
    (s.register id).2 = { s with functions := s.functions ++ [id] } := by
  have : s.function? id = none := by
    simp only [function?, Option.map_eq_none_iff, List.findIdx?_eq_none_iff, beq_eq_false_iff_ne]
    rintro x hx rfl
    exact h hx
  simp [register, this]

/-- Functions that are not registered yet get the next numbers. -/
theorem foldl_register {s : Scope} {ids : List DeclId} (h : (s.functions ++ ids).Nodup) :
    ids.foldl (fun s id => (s.register id).2) s = { s with functions := s.functions ++ ids } := by
  induction ids generalizing s with
  | nil => simp
  | cons id ids ih =>
    have hid : id ∉ s.functions := by
      rw [List.nodup_append] at h
      intro hmem
      exact h.2.2 id hmem id (by simp) rfl
    rw [List.foldl_cons, register_of_not_mem hid, ih (by simpa using h)]
    simp

@[simp] theorem register_nesting (s : Scope) (id : DeclId) : (s.register id).2.nesting = s.nesting := by
  unfold register
  split <;> rfl

end Scope

namespace Nesting

variable {n : Nesting} {policy : FramePolicy}

/-- Functions are registered in the scope of the tables. -/
theorem scope_nesting (n : Nesting) : n.scope.nesting = n := by
  have h : ∀ (ids : List DeclId) (s : Scope),
      (ids.foldl (fun s id => (s.register id).2) s).nesting = s.nesting := by
    intro ids
    induction ids with
    | nil => exact fun _ => rfl
    | cons id ids ih => exact fun s => (ih _).trans (s.register_nesting id)
  exact h _ _

theorem functionOrder_nodup (hp : n.program.Checked) (hc : n.program.ChildrenDistinct) :
    n.functionOrder.Nodup :=
  (hp.preorder_nodup hc).filter _

theorem scope_eq (hp : n.program.Checked) (hc : n.program.ChildrenDistinct) :
    n.scope = ⟨n, n.functionOrder, [], none⟩ := by
  unfold scope
  rw [Scope.foldl_register (by simpa [Scope.of] using functionOrder_nodup hp hc)]
  simp [Scope.of]

/-- The function that a declaration of the program is lowered to, and what its body sees. -/
def LoweredTo (n : Nesting) (id : DeclId) (f : Lir.Function) : Prop :=
  ∃ s v, n.scope.lowerFunction id = (.ok f, s) ∧ s.current = some v ∧ FunctionCode n.scope id v f

/-- The context that a lowered function takes is known from its declaration. -/
theorem LoweredTo.hasContext {id : DeclId} {f : Lir.Function} (h : n.LoweredTo id f)
    (hs : n.scope.nesting = n) : f.decl = id ∧ f.hasContext = (n.program.parent? id).isSome := by
  obtain ⟨scope, v, -, -, hcode⟩ := h
  cases hcode with | mk hd _ _ _ _ _ _ _ _ =>
  rw [hs] at hd
  exact ⟨rfl, by simp [Program.parent?, hd]⟩

/-- The number of a lowered function is the one it is registered with. -/
theorem LoweredTo.function?_eq {id : DeclId} {f : Lir.Function} (h : n.LoweredTo id f) :
    n.scope.function? id = some f.id := by
  obtain ⟨_, _, _, _, hcode⟩ := h
  cases hcode with | mk _ _ htarget => exact htarget

/-- What is known of a module that the tables of a program were lowered to. -/
structure Lowers (n : Nesting) (policy : FramePolicy) (m : Lir.Module) : Prop where
  built : n.Built policy
  distinct : n.program.ChildrenDistinct
  structs_eq : m.structs = n.layouts.structs
  functions : List.Forall₂ n.LoweredTo n.functionOrder m.functions.toList

/-- The functions of a module are those that the declarations are lowered to, in their order. -/
theorem functions_of_lower (hp : n.program.Checked) {m : Lir.Module} (h : n.lower = .ok m) :
    List.Forall₂ n.LoweredTo n.functionOrder m.functions.toList := by
  unfold lower at h
  simp only at h
  split at h
  swap
  · cases h
  rename_i hdefects
  cases h
  have hok : ∀ id ∈ n.functionOrder, ∃ f, (n.scope.lowerFunction id).1 = .ok f := by
    intro id hid
    cases hr : (n.scope.lowerFunction id).1 with
    | ok f => exact ⟨f, rfl⟩
    | error defect =>
      rw [List.isEmpty_iff, List.filterMap_eq_nil_iff] at hdefects
      have := hdefects (.error defect) (List.mem_map.2 ⟨id, hid, hr⟩)
      simp at this
  unfold lowered
  rw [List.filterMap_map]
  generalize n.functionOrder = ids at hok
  induction ids with
  | nil => simp
  | cons id ids ih =>
    obtain ⟨f, hf⟩ := hok id (by simp)
    have := ih fun id hid => hok id (List.mem_cons_of_mem _ hid)
    rw [List.filterMap_cons_some (b := f) (by simp [hf, Except.toOption])]
    refine .cons ?_ (by simpa using this)
    have hpair : n.scope.lowerFunction id = (.ok f, (n.scope.lowerFunction id).2) := Prod.ext hf rfl
    obtain ⟨v, hv, hcode⟩ := Scope.functionCode_of_lowerFunction (by rwa [n.scope_nesting]) hpair
    exact ⟨_, v, hpair, hv, hcode⟩

theorem lowers_of_lower (hn : n.Built policy) (hc : n.program.ChildrenDistinct) {m : Lir.Module}
    (h : n.lower = .ok m) : n.Lowers policy m := by
  refine ⟨hn, hc, ?_, functions_of_lower hn.checked h⟩
  unfold lower at h
  simp only at h
  split at h
  · cases h
    rfl
  · cases h

/-- A unit that compiles has tables, and its module is what they are lowered to. -/
theorem exists_of_compile {p : Program} {settings : Settings} {u : CompiledUnit}
    (h : settings.compile p = .ok u) :
    ∃ n, Nesting.of p settings.frames = .ok n ∧ n.lower = .ok u.lir := by
  unfold Settings.compile at h
  obtain ⟨n, hn, h⟩ := bind_eq_ok.1 h
  obtain ⟨m, hm, h⟩ := bind_eq_ok.1 h
  obtain ⟨wasm, -, h⟩ := bind_eq_ok.1 h
  cases h
  refine ⟨n, ?_, ?_⟩
  · cases hr : Nesting.of p settings.frames with
    | error defect => simp [hr, Except.mapError] at hn
    | ok n' => simpa [hr, Except.mapError] using hn
  · cases hr : n.lower with
    | error defects => simp [hr, Except.mapError] at hm
    | ok m' => simpa [hr, Except.mapError] using hm

/-- What is known of the module of a unit that compiles. -/
theorem lowers_of_compile {p : Program} (hp : p.check = .ok ()) (hc : p.ChildrenDistinct)
    {settings : Settings} {u : CompiledUnit} (h : settings.compile p = .ok u) :
    ∃ n : Nesting, n.program = p ∧ n.Lowers settings.frames u.lir := by
  obtain ⟨n, hn, hlower⟩ := exists_of_compile h
  obtain ⟨rfl, hbuilt⟩ := built_of_eq_ok (Program.checked_of_check hp) hn
  exact ⟨n, rfl, lowers_of_lower hbuilt hc hlower⟩

namespace Lowers

variable {m : Lir.Module} (hm : n.Lowers policy m)
include hm

theorem scope_functions : n.scope.functions = n.functionOrder := by
  rw [scope_eq hm.built.checked hm.distinct]

/-- A registered function stands at its number. -/
theorem function?_of_scope {id : DeclId} {target : FunctionId}
    (h : n.scope.function? id = some target) :
    ∃ f, m.function? target = some f ∧ n.LoweredTo id f := by
  unfold Scope.function? at h
  obtain ⟨i, hi, rfl⟩ := Option.map_eq_some_iff.1 h
  rw [hm.scope_functions] at hi
  obtain ⟨hlt, hid, -⟩ := List.findIdx?_eq_some_iff_getElem.1 hi
  have hid : n.functionOrder[i] = id := by simpa using hid
  have hlt' : i < m.functions.toList.length := hm.functions.length_eq ▸ hlt
  have hcode := hm.functions.get hlt hlt'
  simp only [List.get_eq_getElem, hid] at hcode
  refine ⟨m.functions.toList[i], ?_, hcode⟩
  simp only [Array.length_toList] at hlt'
  simp [Lir.Module.function?, hlt']

/-- Every function of the module is the function of a declaration. -/
theorem exists_code {target : FunctionId} {f : Lir.Function} (h : m.function? target = some f) :
    ∃ id ∈ n.functionOrder, n.LoweredTo id f := by
  unfold Lir.Module.function? at h
  obtain ⟨hlt, rfl⟩ := Array.getElem?_eq_some_iff.1 h
  have hlt' : target.index < n.functionOrder.length := by
    rw [hm.functions.length_eq]
    simpa using hlt
  have hcode := hm.functions.get hlt' (by simpa using hlt)
  exact ⟨n.functionOrder[target.index], List.getElem_mem hlt', by simpa using hcode⟩

/-- A function of the module stands at the number that it has. -/
theorem function?_id {target : FunctionId} {f : Lir.Function} (h : m.function? target = some f) :
    m.function? f.id = some f := by
  obtain ⟨id, -, hf⟩ := hm.exists_code h
  obtain ⟨f', hf', hlowered⟩ := hm.function?_of_scope hf.function?_eq
  obtain ⟨_, _, h₁, -, -⟩ := hf
  obtain ⟨_, _, h₂, -, -⟩ := hlowered
  rw [h₁] at h₂
  cases h₂
  exact hf'

end Lowers

end Nesting

end StaticChain

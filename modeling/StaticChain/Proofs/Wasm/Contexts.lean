import Mathlib.Data.List.Forall2
import Mathlib.Data.Option.Basic
import StaticChain.Proofs.Wasm.Assembly

/-!
# The context of generated code

All types of a generated module are function types in which no reference stands. They can all be defined
(`TypeSpace.exists_ofGroups?`); equal ones get one number, so a type is found through the number of its
number (`TypeSpace.Lists`). With them the code of the module has a context (`exists_context`), in which a
function has the type that it was declared with.
-/

namespace StaticChain.Wasm

@[simp] theorem ValType.isRef_i32 : ValType.i32.isRef = false := rfl

@[simp] theorem ValType.isRef_i64 : ValType.i64.isRef = false := rfl

@[simp] theorem Width.ty_isRef (w : Width) : w.ty.isRef = false := by cases w <;> rfl

@[simp] theorem ofTy_isRef (ty : Lir.Ty) : (ofTy ty).isRef = false := by cases ty <;> rfl

/-! ## Function types -/

/-- No reference stands in the type. -/
def FuncType.IsNumeric (type : FuncType) : Prop :=
  (∀ ty ∈ type.params, ty.isRef = false) ∧ ∀ ty ∈ type.results, ty.isRef = false

theorem signature_isNumeric (f : Lir.Function) : (signature f).IsNumeric := by
  constructor <;> simp [signature]

section

variable (f : Nat → Option Nat)

theorem ValType.renumber?_eq {ty : ValType} (h : ty.isRef = false) : ty.renumber? f = some ty := by
  cases ty with
  | ref type => cases h
  | _ => rfl

theorem mapM_renumber? {types : List ValType} (h : ∀ ty ∈ types, ty.isRef = false) :
    types.mapM (·.renumber? f) = some types := by
  induction types with
  | nil => rfl
  | cons ty types ih =>
    simp [ValType.renumber?_eq f (h ty List.mem_cons_self),
      ih fun ty hmem => h ty (List.mem_cons_of_mem _ hmem)]

theorem SubType.renumber?_func {type : FuncType} (h : type.IsNumeric) :
    ({ body := .func type } : SubType).renumber? f = some { body := .func type } := by
  simp [SubType.renumber?, CompositeType.renumber?, FuncType.renumber?, mapM_renumber? f h.1,
    mapM_renumber? f h.2]

end

/-- The defined types are function types that stand alone. -/
structure TypeSpace.Lists (s : TypeSpace) (types : List FuncType) : Prop where
  size : s.numbers.size = types.length
  number : ∀ (i : Nat) type, types[i]? = some type →
    ∃ k, s.numbers[i]? = some k ∧ s.types[k]? = some ({ body := .func type } : SubType)
  group : ∀ key first, (key, first) ∈ s.groups → ∃ type, key = [type] ∧ s.types[first]? = some type

namespace TypeSpace

theorem Lists.empty : Lists {} [] := ⟨rfl, by simp, by simp⟩

variable {s : TypeSpace} {types : List FuncType}

theorem Lists.add? (h : s.Lists types) {type : FuncType} (ht : type.IsNumeric) :
    ∃ s', s.add? [{ body := .func type }] = some s' ∧ s'.Lists (types ++ [type]) := by
  have hnumber : ∀ {numbers : Array Nat} {all : Array SubType} {k : Nat}, numbers = s.numbers.push k →
      all[k]? = some ({ body := .func type } : SubType) →
      (∀ (j : Nat) t, s.types[j]? = some t → all[j]? = some t) → ∀ (i : Nat) t, (types ++ [type])[i]? = some t →
        ∃ k, numbers[i]? = some k ∧ all[k]? = some ({ body := .func t } : SubType) := by
    rintro _ all k rfl hk hkeep i t hi
    rw [List.getElem?_append] at hi
    split at hi
    · obtain ⟨j, hj, hjt⟩ := h.number i t hi
      have hne : i ≠ s.numbers.size := by
        rw [h.size]
        omega
      exact ⟨j, by rw [Array.getElem?_push, if_neg hne, hj], hkeep j _ hjt⟩
    · rename_i hle
      obtain rfl : i = types.length := by
        have := (List.getElem?_eq_some_iff.1 hi).1
        simp only [List.length_singleton] at this
        omega
      simp only [Nat.sub_self, List.getElem?_cons_zero, Option.some.injEq] at hi
      subst hi
      exact ⟨k, by rw [← h.size]; simp, hk⟩
  unfold TypeSpace.add?
  cases hfind : s.groups.find? (·.1 == [({ body := .func type } : SubType)]) with
  | some group =>
    -- An equal type is there already, and its number is given out again.
    obtain ⟨key, first⟩ := group
    obtain ⟨type', hkey, hfirst⟩ := h.group key first (List.mem_of_find?_eq_some hfind)
    have heq : key = [{ body := .func type }] := by simpa using List.find?_some hfind
    rw [heq, List.singleton_inj] at hkey
    subst hkey
    refine ⟨{ s with numbers := s.numbers.push first }, ?_, by simp [h.size], ?_, h.group⟩
    · simp [SubType.renumber?_func _ ht, guard, hfind]
    · exact hnumber rfl hfirst fun _ _ hj => hj
  | none =>
    have hkeep : ∀ (j : Nat) t, s.types[j]? = some t →
        (s.types.push ({ body := .func type } : SubType))[j]? = some t := by
      intro j t hj
      obtain ⟨hlt, -⟩ := Array.getElem?_eq_some_iff.1 hj
      rw [Array.getElem?_push, if_neg (by omega), hj]
    refine ⟨⟨s.numbers.push s.types.size, s.types.push { body := .func type },
      ([{ body := .func type }], s.types.size) :: s.groups⟩, ?_, by simp [h.size], ?_, ?_⟩
    · simp [SubType.renumber?_func _ ht, guard, hfind, parentIsValid]
    · exact hnumber rfl (by simp) hkeep
    · intro key first hmem
      rcases List.mem_cons.1 hmem with heq | hmem
      · cases heq
        exact ⟨_, rfl, by simp⟩
      · obtain ⟨type', hkey, hfirst⟩ := h.group key first hmem
        exact ⟨type', hkey, hkeep _ _ hfirst⟩

/-- Function types that stand alone can all be defined. -/
theorem exists_ofGroups? (h : ∀ type ∈ types, type.IsNumeric) :
    ∃ s, ofGroups? (types.map TypeGroup.func) = some s ∧ s.Lists types := by
  have key : ∀ (more before : List FuncType) (s : TypeSpace), s.Lists before →
      (∀ type ∈ more, type.IsNumeric) → ∃ s',
        (more.map TypeGroup.func).foldlM (fun s group => s.add? group.members) s = some s' ∧
          s'.Lists (before ++ more) := by
    intro more
    induction more with
    | nil => exact fun before s hs _ => ⟨s, rfl, by simpa using hs⟩
    | cons type more ih =>
      intro before s hs hmore
      obtain ⟨s₁, hadd, h₁⟩ := hs.add? (hmore type List.mem_cons_self)
      obtain ⟨s₂, hfold, h₂⟩ := ih _ s₁ h₁ fun t hmem => hmore t (List.mem_cons_of_mem _ hmem)
      refine ⟨s₂, ?_, by simpa using h₂⟩
      rw [List.map_cons, List.foldlM_cons]
      exact Option.bind_eq_some_iff.2 ⟨s₁, hadd, hfold⟩
  simpa [ofGroups?] using key types [] {} .empty h

theorem Lists.func?_eq (h : s.Lists types) {i : Nat} {type : FuncType} (hi : types[i]? = some type) :
    s.func? i = some type := by
  obtain ⟨k, hk, hbody⟩ := h.number i type hi
  simp [TypeSpace.func?, TypeSpace.body?, hk, hbody]

end TypeSpace

/-! ## Contexts -/

/-- A module with the memory and the globals of `runtime` and these functions and exports. -/
def moduleOf (types : List FuncType) (functions : List Nat) (exports : List Export) (codes : List Code) :
    Module :=
  { runtime with types := types.map TypeGroup.func, functions, exports, code := codes }

/-- What the context of such a module holds. -/
structure Describes (types : List FuncType) (functions : List Nat) (c : Context) : Prop where
  function : ∀ (j i : Nat) type, functions[j]? = some i → types[i]? = some type → c.function? j = some type
  functions_size : c.functions.size = functions.length
  tables : c.tables = #[]
  memories : c.memories = #[{ limits := ⟨2, some 1024⟩ }]
  globals : c.globals = #[⟨.i32, true⟩, ⟨.i32, true⟩]
  tags : c.tags = #[]
  elements : c.elements = #[]

theorem exists_mapM_eq_some {α β : Type} {f : α → Option β} {l : List α} (h : ∀ a ∈ l, ∃ b, f a = some b) :
    ∃ r, l.mapM f = some r ∧ List.Forall₂ (fun a b => f a = some b) l r := by
  induction l with
  | nil => exact ⟨[], rfl, .nil⟩
  | cons a l ih =>
    obtain ⟨b, hb⟩ := h a List.mem_cons_self
    obtain ⟨r, hr, hall⟩ := ih fun a hmem => h a (List.mem_cons_of_mem _ hmem)
    exact ⟨b :: r, by simp [hb, hr], .cons hb hall⟩

section

variable {types : List FuncType} {functions : List Nat} {exports : List Export} {codes : List Code}

variable (exports codes) in
theorem exists_context (ht : ∀ type ∈ types, type.IsNumeric)
    (hf : ∀ i ∈ functions, ∃ type, types[i]? = some type) :
    ∃ c, (moduleOf types functions exports codes).context? = some c ∧ Describes types functions c := by
  obtain ⟨s, hs, hlists⟩ := TypeSpace.exists_ofGroups? ht
  have hnumber : ∀ i ∈ functions, ∃ k, ((s.func? i).bind fun _ => s.numbers[i]?) = some k := by
    intro i hi
    obtain ⟨type, htype⟩ := hf i hi
    obtain ⟨k, hk, -⟩ := hlists.number i type htype
    exact ⟨k, by rw [hlists.func?_eq htype, Option.bind_some, hk]⟩
  obtain ⟨numbers, hnumbers, hall⟩ := exists_mapM_eq_some hnumber
  refine ⟨{
    types := s
    functions := numbers.toArray
    memories := #[{ limits := ⟨2, some 1024⟩ }]
    globals := #[⟨.i32, true⟩, ⟨.i32, true⟩]
    declared := (moduleOf types functions exports codes).declared }, ?_, ?_, ?_, rfl, rfl, rfl, rfl, rfl⟩
  · simp [Module.context?, moduleOf, runtime, hs, Module.allFunctions, Module.imported, hnumbers,
      Module.allTables, Module.importedTables, Module.allMemories, Module.allGlobals,
      Module.importedGlobals, Module.allTags, TypeSpace.val?, ValType.renumber?, List.replicate]
  · intro j i type hj hi
    obtain ⟨k, hk, hki⟩ := exists_getElem?_of_forall₂ hall hj
    obtain ⟨k', hk', hbody⟩ := hlists.number i type hi
    rw [hlists.func?_eq hi, Option.bind_some, hk'] at hki
    cases hki
    simp [Context.function?, hk, hbody]
  · simp [hall.length_eq]

end

end StaticChain.Wasm

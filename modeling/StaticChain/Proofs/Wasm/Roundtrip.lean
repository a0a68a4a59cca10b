import Mathlib.Tactic.IntervalCases
import StaticChain.Proofs.Wasm.Forms
import StaticChain.Proofs.Wasm.Sections
import StaticChain.Wasm.Summary

/-!
# Modules are read back from their binaries

The module of a binary is the module that was written (`Module.ofBytes?_bytes`), if each of its parts is read
back from its form (`Module.Readable`) and no section is too large for its size to be written.
-/

namespace StaticChain.Wasm

open Leb128 (unsigned)

/-! ## Sections of parts -/

namespace Section

variable {α : Type} {slot : List Section} {id : Nat} {f : α → Bytes} {l : List α}

/-- The section holds these parts; without parts there may be none. -/
def Holds (slot : List Section) (id : Nat) (f : α → Bytes) (l : List α) : Prop :=
  slot = [⟨id, counted f l⟩] ∨ slot = [] ∧ l = []

theorem holds_ifAny : Holds (ifAny id f l) id f l := by
  cases l with
  | nil => exact .inr ⟨rfl, rfl⟩
  | cons a l => exact .inl rfl

theorem count?_counted (hlen : l.length < UInt32.size) : count? ⟨id, counted f l⟩ = some l.length := by
  rw [count?, counted, Get.Reads.u32 hlen]
  rfl

theorem isFramed_counted (hid : id ∉ [0, 8, 10, 12]) (hlen : l.length < UInt32.size) :
    isFramed ⟨id, counted f l⟩ .module = true := by
  simp only [List.mem_cons, List.not_mem_nil, or_false, not_or] at hid
  unfold isFramed
  split <;> simp_all [count?_counted]

theorem isFramed_ofNumber {number : Option Nat} (hid : id = 8 ∨ id = 12)
    (h : ∀ n ∈ number, n < UInt32.size) : ∀ s ∈ ofNumber id number, s.isFramed .module = true := by
  cases number with
  | none => simp [ofNumber]
  | some n =>
    have hread := (Get.Reads.u32 (h n rfl)).all
    rcases hid with rfl | rfl <;> simp [ofNumber, isFramed, hread]

end Section

namespace Module

variable {m : Module}

/-- The section at a place, of this number, holds these parts, and each is read back from its form. -/
structure Stores {α : Type} (m : Module) (i id : Nat) (part : Get α) (f : α → Bytes) (l : List α) : Prop where
  holds : ∃ slot, m.slots[i]? = some slot ∧ Section.Holds slot id f l
  order : Section.order[i]? = some id
  reads : ∀ a ∈ l, Get.Reads part (f a) a
  nil : part [] = none

namespace Stores

variable {α : Type} {i id : Nat} {f : α → Bytes} {part : Get α} {l : List α} (h : m.Stores i id part f l)
  (hsizes : ∀ s ∈ m.sections, s.content.length < UInt32.size)
include h hsizes

/-- Parts can be counted if their section has a size. -/
theorem length_lt : l.length < UInt32.size := by
  obtain ⟨slot, hslot, rfl | ⟨-, rfl⟩⟩ := h.holds
  · have hmem : ⟨id, counted f l⟩ ∈ m.sections :=
      List.mem_flatten.2 ⟨_, List.mem_of_getElem? hslot, List.mem_singleton_self _⟩
    refine Nat.lt_of_le_of_lt ?_ (hsizes _ hmem)
    rw [counted, List.length_append]
    exact Nat.le_trans (length_le_flatMap fun a ha => (h.reads a ha).ne_nil h.nil) (Nat.le_add_left _ _)
  · exact Nat.zero_lt_succ _

theorem isFramed (hid : id ∉ [0, 8, 10, 12]) {slot : List Section} (hslot : m.slots[i]? = some slot) :
    ∀ s ∈ slot, s.isFramed .module = true := by
  obtain ⟨slot', hslot', hholds⟩ := h.holds
  cases Option.some.inj (hslot.symm.trans hslot')
  rcases hholds with rfl | ⟨rfl, -⟩
  · simpa using Section.isFramed_counted hid (h.length_lt hsizes)
  · simp

theorem count_eq : m.framing.count id = l.length := by
  obtain ⟨slot, hslot, hholds⟩ := h.holds
  rw [Framing.count, m.section?_eq hslot h.order]
  rcases hholds with rfl | ⟨rfl, rfl⟩
  · rw [List.head?_cons, Option.bind_some, Section.count?_counted (h.length_lt hsizes), Option.getD_some]
  · rfl

theorem parts_eq : m.framing.parts id part = some l := by
  obtain ⟨slot, hslot, hholds⟩ := h.holds
  rw [Framing.parts, m.section?_eq hslot h.order]
  rcases hholds with rfl | ⟨rfl, rfl⟩
  · have hall := (Get.Reads.vector (h.length_lt hsizes) h.reads).all
    rw [List.map_id'] at hall
    exact hall
  · rfl

end Stores

theorem number?_eq {i id : Nat} {number : Option Nat} (hslot : m.slots[i]? = some (Section.ofNumber id number))
    (hid : Section.order[i]? = some id) (h : ∀ n ∈ number, n < UInt32.size) :
    m.framing.number? id = number := by
  rw [Framing.number?, m.section?_eq hslot hid]
  cases number with
  | none => rfl
  | some n => exact (Get.Reads.u32 (h n rfl)).all

/-! ## Readable modules -/

/-- Every part of the module is read back from its form, and there is code for every function. -/
structure Readable (m : Module) : Prop where
  types : ∀ t ∈ m.types, Get.Reads Get.typeGroup t.bytes t
  imports : ∀ i ∈ m.imports, Get.Reads Get.imported i.bytes i
  functions : ∀ i ∈ m.functions, i < UInt32.size
  tables : ∀ t ∈ m.tables, Get.Reads Get.table t.bytes t
  memories : ∀ t ∈ m.memories, Get.Reads Get.memoryType t.bytes t
  tags : ∀ t ∈ m.tags, t < UInt32.size
  globals : ∀ g ∈ m.globals, Get.Reads Get.global g.bytes g
  exports : ∀ e ∈ m.exports, Get.Reads Get.exported e.bytes e
  start : ∀ i ∈ m.start, i < UInt32.size
  elements : ∀ s ∈ m.elements, Get.Reads Get.element s.bytes s
  dataCount : ∀ n ∈ m.dataCount, n = m.data.length
  code : ∀ c ∈ m.code, c.bytes.length < UInt32.size ∧ Get.Reads Get.code (sized c.bytes) c
  data : ∀ s ∈ m.data, Get.Reads Get.data s.bytes s
  bodies : m.functions.length = m.code.length

namespace Readable

section

variable (h : m.Readable)
include h

theorem stores_types : m.Stores 0 1 Get.typeGroup TypeGroup.bytes m.types :=
  ⟨⟨_, rfl, .inl rfl⟩, rfl, h.types, rfl⟩

theorem stores_imports : m.Stores 1 2 Get.imported Import.bytes m.imports :=
  ⟨⟨_, rfl, Section.holds_ifAny⟩, rfl, h.imports, rfl⟩

theorem stores_functions : m.Stores 2 3 Get.u32 unsigned m.functions :=
  ⟨⟨_, rfl, .inl rfl⟩, rfl, fun i hi => .u32 (h.functions i hi), rfl⟩

theorem stores_tables : m.Stores 3 4 Get.table Table.bytes m.tables :=
  ⟨⟨_, rfl, Section.holds_ifAny⟩, rfl, h.tables, rfl⟩

theorem stores_memories : m.Stores 4 5 Get.memoryType MemoryType.bytes m.memories :=
  ⟨⟨_, rfl, Section.holds_ifAny⟩, rfl, h.memories, rfl⟩

theorem stores_tags : m.Stores 5 13 Get.tag tagBytes m.tags :=
  ⟨⟨_, rfl, Section.holds_ifAny⟩, rfl, fun t ht => reads_tag (h.tags t ht), rfl⟩

theorem stores_globals : m.Stores 6 6 Get.global Global.bytes m.globals :=
  ⟨⟨_, rfl, Section.holds_ifAny⟩, rfl, h.globals, rfl⟩

theorem stores_exports : m.Stores 7 7 Get.exported Export.bytes m.exports :=
  ⟨⟨_, rfl, Section.holds_ifAny⟩, rfl, h.exports, rfl⟩

theorem stores_elements : m.Stores 9 9 Get.element ElementSegment.bytes m.elements :=
  ⟨⟨_, rfl, Section.holds_ifAny⟩, rfl, h.elements, rfl⟩

theorem stores_code : m.Stores 11 10 Get.code (fun code => sized code.bytes) m.code :=
  ⟨⟨_, rfl, .inl rfl⟩, rfl, fun c hc => (h.code c hc).2, rfl⟩

theorem stores_data : m.Stores 12 11 Get.data DataSegment.bytes m.data :=
  ⟨⟨_, rfl, Section.holds_ifAny⟩, rfl, h.data, rfl⟩

end

variable (h : m.Readable) (hsizes : ∀ s ∈ m.sections, s.content.length < UInt32.size)
include h hsizes

theorem dataCount_lt : ∀ n ∈ m.dataCount, n < UInt32.size := by
  intro n hn
  rw [h.dataCount n hn]
  exact h.stores_data.length_lt hsizes

/-- The bodies of functions have sizes. -/
theorem isFramed_code : Section.isFramed ⟨10, counted (fun code => sized code.bytes) m.code⟩ .module = true := by
  have hall := (Get.Reads.vector (h.stores_code.length_lt hsizes) fun c hc => .sized (h.code c hc).1).all
  simp [Section.isFramed, hall]

theorem isFramed : ∀ s ∈ m.sections, s.isFramed .module = true := by
  intro s hs
  obtain ⟨slot, hmem, hs⟩ := List.mem_flatten.1 hs
  obtain ⟨i, hslot⟩ := List.getElem?_of_mem hmem
  have hi : i < 13 := (List.getElem?_eq_some_iff.1 hslot).1
  interval_cases i
  · exact h.stores_types.isFramed hsizes (by decide) hslot s hs
  · exact h.stores_imports.isFramed hsizes (by decide) hslot s hs
  · exact h.stores_functions.isFramed hsizes (by decide) hslot s hs
  · exact h.stores_tables.isFramed hsizes (by decide) hslot s hs
  · exact h.stores_memories.isFramed hsizes (by decide) hslot s hs
  · exact h.stores_tags.isFramed hsizes (by decide) hslot s hs
  · exact h.stores_globals.isFramed hsizes (by decide) hslot s hs
  · exact h.stores_exports.isFramed hsizes (by decide) hslot s hs
  · cases hslot
    exact Section.isFramed_ofNumber (.inl rfl) h.start s hs
  · exact h.stores_elements.isFramed hsizes (by decide) hslot s hs
  · cases hslot
    exact Section.isFramed_ofNumber (.inr rfl) (h.dataCount_lt hsizes) s hs
  · cases hslot
    cases List.mem_singleton.1 hs
    exact h.isFramed_code hsizes
  · exact h.stores_data.isFramed hsizes (by decide) hslot s hs

theorem countsAgree : m.framing.countsAgree = true := by
  have hbodies : (m.framing.count 3 == m.framing.count 10) = true := by
    rw [h.stores_functions.count_eq hsizes, h.stores_code.count_eq hsizes]
    exact beq_iff_eq.2 h.bodies
  have hsection : m.framing.section? 12 = (Section.ofNumber 12 m.dataCount).head? :=
    m.section?_eq (i := 10) rfl rfl
  have hdata : ((m.framing.section? 12).isNone || m.framing.count 12 == m.framing.count 11) = true := by
    rw [h.stores_data.count_eq hsizes, Framing.count, hsection]
    cases hcount : m.dataCount with
    | none => rfl
    | some n =>
      have hread : Section.count? ⟨12, unsigned n⟩ = some n := by
        have hn := Get.Reads.u32 (h.dataCount_lt hsizes n hcount) []
        rw [List.append_nil] at hn
        rw [Section.count?, hn]
        rfl
      rw [← h.dataCount n hcount]
      simp [Section.ofNumber, hread]
  simp [Framing.countsAgree, hbodies, hdata]

theorem framing_eq : Framing.of m.bytes = m.framing :=
  Framing.of_bytes hsizes (h.isFramed hsizes) (h.countsAgree hsizes)

/-- The module is read back from its binary. -/
theorem ofBytes?_bytes : Module.ofBytes? m.bytes = some m := by
  have hids : ∀ s ∈ m.sections, s.id ≤ maxSection := by
    have hall : ∀ id ∈ Section.order, id ≤ maxSection := by decide
    exact fun s hs => hall _ (m.id_mem_order hs)
  have hguard : (m.framing.encoding = .module && m.framing.complete &&
      m.framing.sections.all (·.id ≤ maxSection)) = true := by
    simpa [framing] using hids
  simp only [ofBytes?, h.framing_eq hsizes, hguard, h.stores_types.parts_eq hsizes,
    h.stores_imports.parts_eq hsizes, h.stores_functions.parts_eq hsizes, h.stores_tables.parts_eq hsizes,
    h.stores_memories.parts_eq hsizes, h.stores_tags.parts_eq hsizes, h.stores_globals.parts_eq hsizes,
    h.stores_exports.parts_eq hsizes, number?_eq (i := 8) rfl rfl h.start, h.stores_elements.parts_eq hsizes,
    number?_eq (i := 10) rfl rfl (h.dataCount_lt hsizes), h.stores_code.parts_eq hsizes,
    h.stores_data.parts_eq hsizes]
  rfl

/-- The binary is summarised by the number of functions and the exported names. -/
theorem summary_eq : Summary.of m.bytes = .ok ⟨m.functions.length,
    (m.exports.filter (·.kind == .func)).map Export.name,
    (m.exports.filter (·.kind == .memory)).map Export.name⟩ := by
  have hmodules : (Framing.of m.bytes).modules m.bytes.length = m.framing := by
    have hne : m.bytes.length ≠ 0 := by simp [m.bytes_eq, header]
    obtain ⟨k, hk⟩ := Nat.exists_eq_succ_of_ne_zero hne
    rw [h.framing_eq hsizes, hk]
    rfl
  have hexports : ((m.framing.sections.filter (·.id == 7)).mapM fun s =>
      (Get.vector Get.exported).all s.content).map List.flatten = some m.exports := by
    have hread := h.stores_exports.parts_eq hsizes
    rw [Framing.parts, m.section?_eq (i := 7) rfl rfl] at hread
    rw [framing, m.filter_sections (i := 7) rfl rfl]
    cases hempty : m.exports with
    | nil => rfl
    | cons e exports =>
      rw [hempty] at hread
      have hall : (Get.vector Get.exported).all (counted Export.bytes (e :: exports)) = some (e :: exports) := hread
      simp [Section.ifAny, hall]
  have hfunctions : ((m.framing.sections.filter (·.id == 3)).getLast?.bind Section.count?) =
      some m.functions.length := by
    rw [framing, m.filter_sections (i := 2) rfl rfl]
    exact Section.count?_counted (h.stores_functions.length_lt hsizes)
  obtain ⟨exports, hexports, hflatten⟩ := Option.map_eq_some_iff.1 hexports
  simp only [Summary.of, hmodules, hexports, hfunctions, hflatten]
  rfl

end Readable

end Module

end StaticChain.Wasm

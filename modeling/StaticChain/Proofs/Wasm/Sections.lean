import StaticChain.Proofs.Wasm.Reading

/-!
# The sections of a binary

The binary of a module is the header and the sections of the module (`Module.bytes_eq`), in the order in which
sections stand. Taken apart it gives them back (`Framing.of_bytes`), if each has a size of 32 bits and can be
split into parts, and the counts of functions and bodies agree.
-/

namespace StaticChain.Wasm

open Leb128 (unsigned)

namespace Section

/-- A section that stands only where it has parts. -/
def ifAny {α : Type} (id : Nat) (f : α → Bytes) (parts : List α) : List Section :=
  if parts.isEmpty then [] else [⟨id, counted f parts⟩]

/-- A section of one number, that stands only where there is one. -/
def ofNumber (id : Nat) (number : Option Nat) : List Section :=
  number.toList.map fun number => ⟨id, unsigned number⟩

def bytes (s : Section) : Bytes := sectionBytes (UInt8.ofNat s.id) s.content

/-- The place of a section in the order, from one on. -/
def rank (s : Section) : Nat := (s.rank? .module).getD 0

@[simp] theorem flatMap_ifAny {α : Type} (id : Nat) (f : α → Bytes) (parts : List α) :
    (ifAny id f parts).flatMap bytes = sectionIfAny (UInt8.ofNat id) f parts := by
  unfold ifAny sectionIfAny
  split <;> simp [bytes]

@[simp] theorem flatMap_ofNumber (id : Nat) (number : Option Nat) :
    (ofNumber id number).flatMap bytes = sectionOfNumber (UInt8.ofNat id) number := by
  cases number <;> simp [ofNumber, sectionOfNumber, bytes]

/-- A section of the number, or none. -/
def Slot (slot : List Section) (id : Nat) : Prop := slot = [] ∨ ∃ content, slot = [⟨id, content⟩]

@[simp] theorem slot_singleton (id : Nat) (content : Bytes) : Slot [⟨id, content⟩] id := .inr ⟨content, rfl⟩

@[simp] theorem slot_ifAny {α : Type} (id : Nat) (f : α → Bytes) (parts : List α) : Slot (ifAny id f parts) id := by
  unfold ifAny
  split
  · exact .inl rfl
  · exact slot_singleton id _

@[simp] theorem slot_ofNumber (id : Nat) (number : Option Nat) : Slot (ofNumber id number) id := by
  cases number with
  | none => exact .inl rfl
  | some number => exact slot_singleton id _

section

variable {slots : List (List Section)} {ids : List Nat} (h : List.Forall₂ Slot slots ids)
include h

theorem ids_sublist : (slots.flatten.map id).Sublist ids := by
  induction h with
  | nil => exact .refl _
  | cons hslot _ ih =>
    rcases hslot with rfl | ⟨content, rfl⟩
    · exact ih.cons _
    · exact ih.cons_cons _

/-- What stands at a place is all that has its number. -/
theorem filter_flatten (hnodup : ids.Nodup) {i n : Nat} {slot : List Section} (hslot : slots[i]? = some slot)
    (hid : ids[i]? = some n) : slots.flatten.filter (·.id == n) = slot := by
  induction h generalizing i with
  | nil => cases hslot
  | @cons first k slots ids hfirst hrest ih =>
    obtain ⟨hnew, hnodup⟩ := List.nodup_cons.1 hnodup
    rw [List.flatten_cons, List.filter_append]
    cases i with
    | zero =>
      cases hslot
      cases hid
      have hnone : slots.flatten.filter (·.id == n) = [] := by
        refine List.filter_eq_nil_iff.2 fun s hs heq => hnew ?_
        rw [← beq_iff_eq.1 heq]
        exact (ids_sublist hrest).subset (List.mem_map_of_mem hs)
      rw [hnone, List.append_nil]
      rcases hfirst with rfl | ⟨content, rfl⟩ <;> simp
    | succ i =>
      have hother : first.filter (·.id == n) = [] := by
        have hne : k ≠ n := fun heq => hnew (heq ▸ List.mem_of_getElem? hid)
        rcases hfirst with rfl | ⟨content, rfl⟩ <;> simp [hne]
      rw [hother, List.nil_append]
      exact ih hnodup hslot hid

end

end Section

open Section in
/-- What stands at each place in the order of sections: one section or none. -/
def Module.slots (m : Module) : List (List Section) :=
  [[⟨1, counted TypeGroup.bytes m.types⟩], ifAny 2 Import.bytes m.imports, [⟨3, counted unsigned m.functions⟩],
    ifAny 4 Table.bytes m.tables, ifAny 5 MemoryType.bytes m.memories, ifAny 13 tagBytes m.tags,
    ifAny 6 Global.bytes m.globals, ifAny 7 Export.bytes m.exports, ofNumber 8 m.start,
    ifAny 9 ElementSegment.bytes m.elements, ofNumber 12 m.dataCount,
    [⟨10, counted (fun code => sized code.bytes) m.code⟩], ifAny 11 DataSegment.bytes m.data]

/-- The sections of a module, in the order in which they stand. -/
def Module.sections (m : Module) : List Section := m.slots.flatten

namespace Module

variable (m : Module)

theorem bytes_eq : m.bytes = header ++ m.sections.flatMap Section.bytes := by
  simp [Module.bytes, sections, slots, Section.bytes]

theorem forall₂_slots : List.Forall₂ Section.Slot m.slots Section.order := by
  simp [slots, Section.order]

theorem ids_sublist : (m.sections.map Section.id).Sublist Section.order := Section.ids_sublist m.forall₂_slots

theorem id_mem_order {s : Section} (hs : s ∈ m.sections) : s.id ∈ Section.order :=
  m.ids_sublist.subset (List.mem_map_of_mem hs)

/-- Sections stand in order. -/
theorem ranks_lt : (m.sections.map Section.rank).Pairwise (· < ·) := by
  have hall : (Section.order.map fun id => Section.rank ⟨id, []⟩).Pairwise (· < ·) := by decide
  have heq : m.sections.map Section.rank = (m.sections.map Section.id).map fun id => Section.rank ⟨id, []⟩ := by
    rw [List.map_map]
    rfl
  rw [heq]
  exact hall.sublist (m.ids_sublist.map _)

theorem rank?_eq {s : Section} (hs : s ∈ m.sections) : s.rank? .module = some s.rank ∧ 0 < s.rank := by
  have hall : ∀ id ∈ Section.order,
      Section.rank? ⟨id, []⟩ .module = some (Section.rank ⟨id, []⟩) ∧ 0 < Section.rank ⟨id, []⟩ := by decide
  exact hall s.id (m.id_mem_order hs)

/-- How the binary of the module is taken apart. -/
def framing : Framing := ⟨.module, m.sections, true⟩

section

variable {i id : Nat} {slot : List Section} (hslot : m.slots[i]? = some slot)
  (hid : Section.order[i]? = some id)
include hslot hid

theorem filter_sections : m.sections.filter (·.id == id) = slot :=
  Section.filter_flatten m.forall₂_slots (by decide) hslot hid

theorem section?_eq : m.framing.section? id = slot.head? := by
  rw [Framing.section?, ← List.head?_filter]
  exact congrArg List.head? (m.filter_sections hslot hid)

end

end Module

/-! ## Taking binaries apart -/

/-- A section is read if its size has 32 bits and it can be split into parts. -/
theorem Section.get_bytes {s : Section} (hid : s.id ∈ order) (hsize : s.content.length < UInt32.size)
    (hframed : s.isFramed .module = true) (rest : Bytes) :
    Section.get .module false (s.bytes ++ rest) = some (s, rest) := by
  have hids : ∀ id ∈ order, UInt8.ofNat id < 128 ∧ (UInt8.ofNat id).toNat = id ∧
      (0 == UInt8.ofNat id) = false := by decide
  obtain ⟨hlt, hback, hmagic⟩ := hids s.id hid
  have hread := Get.Reads.sized hsize rest
  have hlead : magic.isPrefixOf (s.bytes ++ rest) = false := by
    simp only [magic, Section.bytes, sectionBytes, List.cons_append, List.isPrefixOf_cons_cons, hmagic, Bool.false_and]
  have hfront : Get.byte (s.bytes ++ rest) = some (UInt8.ofNat s.id, sized s.content ++ rest) := rfl
  have hplain : (Encoding.module == .component && (s.id == 1 || s.id == 4) && !false) = false := rfl
  unfold Section.get
  simp only [bind, StateT.bind, StateT.get, pure, hlead, hfront, hback, isBundled, Option.bind_some,
    Bool.false_eq_true, if_false, hlt, decide_true, Bool.true_and, hplain]
  simp only [hread, Option.bind_some, hframed, if_true]
  rfl

namespace Framing

theorem scan_bytes {sections : List Section} (hids : ∀ s ∈ sections, s.id ∈ Section.order)
    (hranks : ∀ s ∈ sections, s.rank? .module = some s.rank)
    (hsizes : ∀ s ∈ sections, s.content.length < UInt32.size)
    (hframed : ∀ s ∈ sections, s.isFramed .module = true) {last fuel : Nat}
    (hsorted : (last :: sections.map Section.rank).Pairwise (· < ·))
    (hfuel : sections.length ≤ fuel) :
    scan .module false fuel last (sections.flatMap Section.bytes) = ⟨.module, sections, true⟩ := by
  induction sections generalizing last fuel with
  | nil => simp [scan]
  | cons s sections ih =>
    obtain ⟨fuel, rfl⟩ : ∃ k, fuel = k + 1 := ⟨fuel - 1, by simp at hfuel; omega⟩
    obtain ⟨hid, hids⟩ := List.forall_mem_cons.1 hids
    obtain ⟨hrank, hranks⟩ := List.forall_mem_cons.1 hranks
    obtain ⟨hsize, hsizes⟩ := List.forall_mem_cons.1 hsizes
    obtain ⟨hs, hframed⟩ := List.forall_mem_cons.1 hframed
    obtain ⟨hlast, hsorted⟩ := List.pairwise_cons.1 hsorted
    have hlt : last < s.rank := hlast s.rank (by simp)
    have hget := Section.get_bytes hid hsize hs (sections.flatMap Section.bytes)
    have hne : s.bytes ++ sections.flatMap Section.bytes ≠ [] := by simp [Section.bytes, sectionBytes]
    have hrest := ih hids hranks hsizes hframed hsorted (show sections.length ≤ fuel by simpa using hfuel)
    rw [List.flatMap_cons, scan, hget]
    · simp only [hrank, Option.getD_some, if_pos hlt, hrest]
    · exact hne

/-- A binary is taken apart into the sections of the module. -/
theorem of_bytes {m : Module} (hsizes : ∀ s ∈ m.sections, s.content.length < UInt32.size)
    (hframed : ∀ s ∈ m.sections, s.isFramed .module = true)
    (hcounts : m.framing.countsAgree = true) : of m.bytes = m.framing := by
  have hencoding : Encoding.of? m.bytes = some .module := by
    rw [m.bytes_eq]
    rfl
  have hdrop : m.bytes.drop Encoding.module.header.length = m.sections.flatMap Section.bytes := by
    rw [m.bytes_eq]
    rfl
  have hfuel : m.sections.length ≤ m.bytes.length := by
    rw [m.bytes_eq, List.length_append]
    exact Nat.le_trans (length_le_flatMap fun s _ => by simp [Section.bytes, sectionBytes]) (Nat.le_add_left _ _)
  have hsorted : (0 :: m.sections.map Section.rank).Pairwise (· < ·) := by
    refine List.pairwise_cons.2 ⟨?_, m.ranks_lt⟩
    intro rank hrank
    obtain ⟨s, hs, rfl⟩ := List.mem_map.1 hrank
    exact (m.rank?_eq hs).2
  have hscan := scan_bytes (fun s hs => m.id_mem_order hs) (fun s hs => (m.rank?_eq hs).1) hsizes hframed
    hsorted hfuel
  simp only [of, hencoding, hdrop, hscan]
  rw [← Module.framing, hcounts]
  rfl

end Framing

end StaticChain.Wasm

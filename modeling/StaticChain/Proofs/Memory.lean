import StaticChain.Proofs.Effects

/-!
# The store is a memory

Any operations on a store, in any order and with any numbers, are recorded together with their answers
(`Store.history`). The record alone says what the store holds afterwards: an object lives if it was allocated and
not released since (`Store.Lives`), and a slot of it holds what the last write to it that was not refused put
there (`Store.lastWritten`). So a store that started empty is a memory (`Store.remembers`): reads see the writes,
released objects stay released, and refused operations leave no trace.

What is recorded and what the store holds agree at the start and after each operation (`Store.Reflects`).
-/

namespace StaticChain

open Lir (StructId AllocKind)

namespace Machine.Store

/-! ## Operations and their record -/

/-- An operation on a store. -/
inductive Op where
  | allocate (struct : StructId) (kind : AllocKind) (slots : Nat)
  | release (id : ObjectId)
  | write (id : ObjectId) (slot : Nat) (value : Value)
  | read (id : ObjectId) (slot : Nat)

/-- What an operation gives back. -/
inductive Answer where
  | allocated (id : ObjectId)
  | done
  | found (value : Value)
  | refused (cause : Fault)

/-- The answer of an operation, and the store it leaves. -/
def apply (s : Store) : Op → Answer × Store
  | .allocate struct kind slots => (.allocated s.next, s.allocate struct kind slots)
  | .release id => (.done, s.release id)
  | .write id slot value =>
    match s.write id slot value with
    | .ok s' => (.done, s')
    | .error cause => (.refused cause, s)
  | .read id slot =>
    match s.read id slot with
    | .ok value => (.found value, s)
    | .error cause => (.refused cause, s)

section

variable {s : Store} {id : ObjectId} {slot : Nat} {value : Value} {cause : Fault}

theorem apply_write_of_ok (h : s.checkSlot id slot = .ok ()) :
    s.apply (.write id slot value) = (.done, s.set id slot value) := by
  simp [apply, write, h, bind, Except.bind, pure, Except.pure]

theorem apply_write_of_error (h : s.checkSlot id slot = .error cause) :
    s.apply (.write id slot value) = (.refused cause, s) := by
  simp [apply, write, h, bind, Except.bind]

theorem apply_read_of_ok (h : s.read id slot = .ok value) : s.apply (.read id slot) = (.found value, s) := by
  simp [apply, h]

theorem apply_read_of_error (h : s.read id slot = .error cause) :
    s.apply (.read id slot) = (.refused cause, s) := by
  simp [apply, h]

/-- A refused operation leaves the store as it is. -/
theorem apply_of_refused {op : Op} (h : (s.apply op).1 = .refused cause) : (s.apply op).2 = s := by
  cases op with
  | allocate struct kind slots => cases h
  | release id => cases h
  | write id slot value =>
    cases hs : s.checkSlot id slot with
    | ok =>
      rw [apply_write_of_ok hs] at h
      cases h
    | error cause => rw [apply_write_of_error hs]
  | read id slot =>
    cases hs : s.read id slot with
    | ok value => rw [apply_read_of_ok hs]
    | error cause => rw [apply_read_of_error hs]

end

/-- The store after operations, one after the other. -/
def applyAll (s : Store) (ops : List Op) : Store := ops.foldl (fun s op => (s.apply op).2) s

/-- Operations with the answers they got. -/
abbrev History := List (Op × Answer)

/-- The record of operations, one after the other. -/
def history (s : Store) : List Op → History
  | [] => []
  | op :: ops => (op, (s.apply op).1) :: history (s.apply op).2 ops

theorem applyAll_append (s : Store) (ops ops' : List Op) :
    s.applyAll (ops ++ ops') = (s.applyAll ops).applyAll ops' := by
  simp [applyAll]

/-! ## What a record says -/

/-- The allocation was answered with the number of the object, which was never released since. -/
def Lives (h : History) (id : ObjectId) (slots : Nat) : Prop :=
  ∃ before struct kind since, h = before ++ (.allocate struct kind slots, .allocated id) :: since ∧
    ∀ answer, (.release id, answer) ∉ since

/-- What the operation has put into the slot, if it is a write to it that was not refused. -/
def writtenTo (id : ObjectId) (slot : Nat) : Op × Answer → Option Value
  | (.write id' slot' value, .done) => if id' = id ∧ slot' = slot then some value else none
  | _ => none

/-- What the last write to the slot that was not refused has put there. -/
def lastWritten (h : History) (id : ObjectId) (slot : Nat) : Option Value :=
  h.reverse.findSome? (writtenTo id slot)

/-- The number that an allocation was answered with. -/
def numberOf : Op × Answer → Option ObjectId
  | (_, .allocated id) => some id
  | _ => none

/-- The operation allocates an object there. -/
def Op.allocatesAt (kind : AllocKind) : Op → Bool
  | .allocate _ kind' _ => kind' == kind
  | _ => false

variable {s : Store} {h : History} {id : ObjectId} {slot k : Nat} {v : Value}

theorem lives_concat {e : Op × Answer} :
    Lives (h ++ [e]) id k ↔ (∃ struct kind, e = (.allocate struct kind k, .allocated id)) ∨
      Lives h id k ∧ ∀ answer, e ≠ (.release id, answer) := by
  constructor
  · rintro ⟨before, struct, kind, since, heq, hsince⟩
    rcases List.eq_nil_or_concat since with rfl | ⟨since, last, rfl⟩
    · exact .inl ⟨struct, kind, (List.append_inj' heq rfl).2 |> List.head_eq_of_cons_eq⟩
    · rw [List.concat_eq_append, ← List.cons_append, ← List.append_assoc] at heq
      obtain ⟨rfl, hlast⟩ := List.append_inj' heq rfl
      obtain rfl := List.head_eq_of_cons_eq hlast
      refine .inr ⟨⟨before, struct, kind, since, rfl, fun answer hmem => hsince answer (by simp [hmem])⟩, ?_⟩
      rintro answer rfl
      exact hsince answer (by simp)
  · rintro (⟨struct, kind, rfl⟩ | ⟨⟨before, struct, kind, since, rfl, hsince⟩, hne⟩)
    · exact ⟨h, struct, kind, [], rfl, by simp⟩
    · refine ⟨before, struct, kind, since ++ [e], by simp, fun answer hmem => ?_⟩
      rcases List.mem_append.1 hmem with hmem | hmem
      · exact hsince answer hmem
      · exact hne answer (List.mem_singleton.1 hmem).symm

theorem lastWritten_concat {e : Op × Answer} :
    lastWritten (h ++ [e]) id slot = (writtenTo id slot e).or (lastWritten h id slot) := by
  simp only [lastWritten, List.reverse_append, List.reverse_singleton, List.singleton_append,
    List.findSome?_cons]
  cases writtenTo id slot e <;> rfl

/-! ## The store and its record -/

/-- The record says what is in the store. -/
structure Reflects (s : Store) (h : History) : Prop where
  /-- Allocations are numbered in order. -/
  numbers : h.filterMap numberOf = (List.range s.objects.size).map ObjectId.mk
  lives_iff : ∀ id k, Lives h id k ↔
    ∃ object, s.objects[id.index]? = some object ∧ object.live = true ∧ object.slots.size = k
  lastWritten_iff : ∀ id slot v, lastWritten h id slot = some v ↔
    ∃ object, s.objects[id.index]? = some object ∧ object.slots[slot]? = some (some v)
  stats_eq : s.stats = {
    heap := (h.map Prod.fst).countP (Op.allocatesAt .heap)
    stack := (h.map Prod.fst).countP (Op.allocatesAt .stack)
    released := s.objects.countP fun object => !object.live }

theorem reflects_empty : Reflects empty [] where
  numbers := rfl
  lives_iff := by simp [Lives, empty]
  lastWritten_iff := by simp [lastWritten, empty]
  stats_eq := rfl

/-- One object dies. -/
theorem countP_modify_live {objects : Array Object} {i : Nat} {object : Object}
    (ho : objects[i]? = some object) (hlive : object.live = true) :
    (objects.modify i fun object => { object with live := false }).countP (fun object => !object.live) =
      objects.countP (fun object => !object.live) + 1 := by
  obtain ⟨hi, rfl⟩ := Array.getElem?_eq_some_iff.1 ho
  have hset : (objects.modify i fun object => { object with live := false }) =
      objects.set i { objects[i] with live := false } := by
    ext j hj
    all_goals simp [Array.getElem_modify, Array.getElem_set]
    split <;> simp_all
  rw [hset, Array.countP_set]
  simp [hlive]

/-- A write lets nothing die. -/
theorem countP_set_live (s : Store) (id : ObjectId) (slot : Nat) (value : Value) :
    (s.set id slot value).objects.countP (fun object => !object.live) =
      s.objects.countP fun object => !object.live := by
  have hmap : (s.set id slot value).objects.map Object.live = s.objects.map Object.live := by
    ext i hi
    all_goals simp [Store.set, Array.getElem_modify, apply_ite Object.live]
  have hcount : ∀ objects : Array Object, objects.countP (fun object => !object.live) =
      (objects.map Object.live).countP (! ·) := fun objects => by
    simp [Array.countP_map, Function.comp_def]
  rw [hcount, hmap, ← hcount]

namespace Reflects

variable (hr : Reflects s h)
include hr

theorem allocate (struct : StructId) (kind : AllocKind) (slots : Nat) :
    Reflects (s.allocate struct kind slots) (h ++ [(.allocate struct kind slots, .allocated s.next)]) where
  numbers := by simp [hr.numbers, numberOf, Store.allocate, List.range_succ, next]
  lives_iff id k := by
    rw [lives_concat, hr.lives_iff, get?_allocate]
    by_cases hid : id.index = s.objects.size
    · obtain rfl : id = s.next := congrArg ObjectId.mk hid
      simp [next]
    · have hne : s.next ≠ id := fun heq => hid (congrArg ObjectId.index heq).symm
      simp [hid, hne]
  lastWritten_iff id slot v := by
    have hold : writtenTo id slot (.allocate struct kind slots, .allocated s.next) = none := rfl
    rw [lastWritten_concat, hold, Option.none_or, hr.lastWritten_iff, get?_allocate]
    split
    · rename_i hid
      simp [hid, Array.getElem?_replicate]
    · rfl
  stats_eq := by
    cases kind <;> simp [hr.stats_eq, Store.allocate, Stats.allocated, Op.allocatesAt]

theorem release (id : ObjectId) : Reflects (s.release id) (h ++ [(.release id, .done)]) where
  numbers := by
    have hsize : (s.release id).objects.size = s.objects.size := s.size_releaseAll [id]
    rw [hsize, ← hr.numbers]
    simp [numberOf]
  lives_iff id' k := by
    rw [lives_concat, hr.lives_iff, get?_release]
    by_cases hid : id = id'
    · subst hid
      simp
    · have hne : id.index ≠ id'.index := fun heq => hid (congrArg ObjectId.mk heq)
      simp [hid, hne]
  lastWritten_iff id' slot v := by
    have hold : writtenTo id' slot (.release id, .done) = none := rfl
    rw [lastWritten_concat, hold, Option.none_or, hr.lastWritten_iff, get?_release]
    split <;> simp
  stats_eq := by
    unfold Store.release isLive
    cases ho : s.objects[id.index]? with
    | none => simp [hr.stats_eq, Op.allocatesAt]
    | some object =>
      by_cases hlive : object.live = true
      · simp [hlive, hr.stats_eq, Op.allocatesAt, countP_modify_live ho hlive]
      · simp [hlive, hr.stats_eq, Op.allocatesAt]

/-- A write that is not refused. -/
theorem set {slot : Nat} (hs : s.checkSlot id slot = .ok ()) (value : Value) :
    Reflects (s.set id slot value) (h ++ [(.write id slot value, .done)]) where
  numbers := by simp [hr.numbers, numberOf, Store.set]
  lives_iff id' k := by
    rw [lives_concat, hr.lives_iff, get?_set]
    split <;> simp
  lastWritten_iff id' slot' v := by
    obtain ⟨object, ho, -, hslot⟩ := checkSlot_eq_ok.1 hs
    rw [lastWritten_concat, Option.or_eq_some_iff, hr.lastWritten_iff, get?_set]
    by_cases hid : id = id'
    · subst hid
      by_cases hslots : slot = slot'
      · subst hslots
        simp [writtenTo, ho, hslot]
      · simp [writtenTo, ho, hslots, Array.getElem?_setIfInBounds_ne hslots]
    · have hne : id.index ≠ id'.index := fun heq => hid (congrArg ObjectId.mk heq)
      simp [writtenTo, hid, hne]
  stats_eq := by
    have hstats : (s.set id slot value).stats = s.stats := rfl
    rw [hstats, hr.stats_eq, countP_set_live]
    simp [Op.allocatesAt]

/-- An entry that says nothing about the store. -/
theorem silent {op : Op} {answer : Answer} (hnumber : numberOf (op, answer) = none)
    (hrelease : ∀ id, op ≠ .release id) (halloc : ∀ kind, op.allocatesAt kind = false)
    (hwritten : ∀ id slot, writtenTo id slot (op, answer) = none) : Reflects s (h ++ [(op, answer)]) where
  numbers := by simp [hr.numbers, hnumber]
  lives_iff id k := by
    rw [lives_concat, ← hr.lives_iff]
    constructor
    · rintro (⟨struct, kind, heq⟩ | ⟨hlives, -⟩)
      · cases heq
        cases hnumber
      · exact hlives
    · intro hlives
      refine .inr ⟨hlives, fun answer' heq => ?_⟩
      cases heq
      exact hrelease id rfl
  lastWritten_iff id slot v := by rw [lastWritten_concat, hwritten, Option.none_or, hr.lastWritten_iff]
  stats_eq := by simp [hr.stats_eq, halloc]

/-- An operation and its answer go into the record together. -/
theorem apply (op : Op) : Reflects (s.apply op).2 (h ++ [(op, (s.apply op).1)]) := by
  cases op with
  | allocate struct kind slots => exact hr.allocate struct kind slots
  | release id => exact hr.release id
  | write id slot value =>
    cases hs : s.checkSlot id slot with
    | ok =>
      rw [apply_write_of_ok hs]
      exact hr.set hs value
    | error cause =>
      rw [apply_write_of_error hs]
      exact hr.silent rfl (by simp) (fun _ => rfl) fun _ _ => rfl
  | read id slot =>
    cases hs : s.read id slot with
    | ok value =>
      rw [apply_read_of_ok hs]
      exact hr.silent rfl (by simp) (fun _ => rfl) fun _ _ => rfl
    | error cause =>
      rw [apply_read_of_error hs]
      exact hr.silent rfl (by simp) (fun _ => rfl) fun _ _ => rfl

theorem applyAll (ops : List Op) : Reflects (s.applyAll ops) (h ++ s.history ops) := by
  induction ops generalizing s h with
  | nil => simpa [Store.applyAll, history] using hr
  | cons op ops ih => simpa [Store.applyAll, history] using ih (hr.apply op)

theorem isLive_iff : s.isLive id = true ↔ ∃ slots, Lives h id slots := by
  simp only [isLive, Option.any_eq_true, hr.lives_iff]
  exact ⟨fun ⟨object, ho, hlive⟩ => ⟨_, object, ho, hlive, rfl⟩,
    fun ⟨_, object, ho, hlive, _⟩ => ⟨object, ho, hlive⟩⟩

theorem checkSlot_iff : s.checkSlot id slot = .ok () ↔ ∃ slots, Lives h id slots ∧ slot < slots := by
  simp only [checkSlot_eq_ok, hr.lives_iff]
  constructor
  · rintro ⟨object, ho, hlive, hslot⟩
    exact ⟨_, ⟨object, ho, hlive, rfl⟩, hslot⟩
  · rintro ⟨_, ⟨object, ho, hlive, rfl⟩, hslot⟩
    exact ⟨object, ho, hlive, hslot⟩

theorem read_iff : s.read id slot = .ok v ↔
    (∃ slots, Lives h id slots ∧ slot < slots) ∧ lastWritten h id slot = some v := by
  rw [← hr.checkSlot_iff, hr.lastWritten_iff, checkSlot_eq_ok, read_eq_ok]
  constructor
  · rintro ⟨object, ho, hlive, hv⟩
    exact ⟨⟨object, ho, hlive, (Array.getElem?_eq_some_iff.1 hv).1⟩, object, ho, hv⟩
  · rintro ⟨⟨object, ho, hlive, -⟩, object', ho', hv⟩
    rw [ho] at ho'
    cases ho'
    exact ⟨object, ho, hlive, hv⟩

/-- Objects that were allocated are in the store. -/
theorem exists_object (hid : id ∈ h.filterMap numberOf) : ∃ object, s.objects[id.index]? = some object := by
  rw [hr.numbers] at hid
  obtain ⟨i, hi, rfl⟩ := List.mem_map.1 hid
  exact ⟨_, Array.getElem?_eq_getElem (List.mem_range.1 hi)⟩

end Reflects

/-! ## Released objects -/

/-- The object was allocated and is released. -/
def Dead (s : Store) (id : ObjectId) : Prop :=
  ∃ object, s.objects[id.index]? = some object ∧ object.live = false

namespace Dead

variable (hd : s.Dead id)
include hd

theorem isLive_eq_false : s.isLive id = false := by
  obtain ⟨object, ho, hlive⟩ := hd
  simp [isLive, ho, hlive]

/-- No operation brings an object back. -/
theorem apply (op : Op) : (s.apply op).2.Dead id := by
  obtain ⟨object, ho, hlive⟩ := hd
  cases op with
  | allocate struct kind slots =>
    obtain ⟨hlt, -⟩ := Array.getElem?_eq_some_iff.1 ho
    exact ⟨object, by rw [Store.apply, get?_allocate, if_neg (Nat.ne_of_lt hlt), ho], hlive⟩
  | release id' =>
    simp only [Store.apply, Dead, get?_release, ho]
    split
    · exact ⟨_, rfl, rfl⟩
    · exact ⟨object, rfl, hlive⟩
  | write id' slot value =>
    cases hs : s.checkSlot id' slot with
    | ok =>
      simp only [apply_write_of_ok hs, Dead, get?_set, ho]
      split
      · exact ⟨_, rfl, hlive⟩
      · exact ⟨object, rfl, hlive⟩
    | error cause =>
      rw [apply_write_of_error hs]
      exact ⟨object, ho, hlive⟩
  | read id' slot =>
    cases hs : s.read id' slot with
    | ok value =>
      rw [apply_read_of_ok hs]
      exact ⟨object, ho, hlive⟩
    | error cause =>
      rw [apply_read_of_error hs]
      exact ⟨object, ho, hlive⟩

theorem applyAll (ops : List Op) : (s.applyAll ops).Dead id := by
  induction ops generalizing s with
  | nil => exact hd
  | cons op ops ih => exact ih (hd.apply op)

end Dead

theorem dead_release {object : Object} (ho : s.objects[id.index]? = some object) : (s.release id).Dead id :=
  ⟨{ object with live := false }, by simp [get?_release, ho], rfl⟩

/-! ## Stores that started empty -/

theorem map_fst_history (s : Store) (ops : List Op) : (s.history ops).map Prod.fst = ops := by
  induction ops generalizing s with
  | nil => rfl
  | cons op ops ih => simp [history, ih]

/-- Every allocation is answered with a number. -/
theorem length_numbers (s : Store) (ops : List Op) : ((s.history ops).filterMap numberOf).length =
    ops.countP (Op.allocatesAt .heap) + ops.countP (Op.allocatesAt .stack) := by
  induction ops generalizing s with
  | nil => rfl
  | cons op ops ih =>
    rw [history, List.countP_cons, List.countP_cons]
    cases op with
    | allocate struct kind slots =>
      have hnumber : numberOf (.allocate struct kind slots, (s.apply (.allocate struct kind slots)).1) =
          some s.next := rfl
      rw [List.filterMap_cons_some hnumber, List.length_cons, ih]
      cases kind <;> simp [Op.allocatesAt] <;> omega
    | release id =>
      rw [List.filterMap_cons_none rfl, ih]
      simp [Op.allocatesAt]
    | write id slot value =>
      have hnumber : numberOf (.write id slot value, (s.apply (.write id slot value)).1) = none := by
        cases hs : s.checkSlot id slot <;> simp [apply_write_of_ok, apply_write_of_error, hs, numberOf]
      rw [List.filterMap_cons_none hnumber, ih]
      simp [Op.allocatesAt]
    | read id slot =>
      have hnumber : numberOf (.read id slot, (s.apply (.read id slot)).1) = none := by
        cases hs : s.read id slot <;> simp [apply_read_of_ok, apply_read_of_error, hs, numberOf]
      rw [List.filterMap_cons_none hnumber, ih]
      simp [Op.allocatesAt]

/-- What the operations have done to a store that started empty, told by their record. -/
structure Remembers (ops : List Op) : Prop where
  /-- The allocations got the numbers 0, 1, 2, … in order. -/
  numbers : (empty.history ops).filterMap numberOf =
    (List.range (ops.countP (Op.allocatesAt .heap) + ops.countP (Op.allocatesAt .stack))).map ObjectId.mk
  isLive_iff : ∀ id, (empty.applyAll ops).isLive id = true ↔ ∃ slots, Lives (empty.history ops) id slots
  /-- Writes are done exactly where there is a slot of an object that lives. -/
  write_iff : ∀ id slot value, ((empty.applyAll ops).apply (.write id slot value)).1 = .done ↔
    ∃ slots, Lives (empty.history ops) id slots ∧ slot < slots
  /-- Reads find what was written last. -/
  read_iff : ∀ id slot v, (empty.applyAll ops).read id slot = .ok v ↔
    (∃ slots, Lives (empty.history ops) id slots ∧ slot < slots) ∧
      lastWritten (empty.history ops) id slot = some v
  /-- An operation that is refused might as well be left out. -/
  refused : ∀ op cause, ((empty.applyAll ops).apply op).1 = .refused cause → ∀ later,
    empty.applyAll (ops ++ op :: later) = empty.applyAll (ops ++ later)
  /-- Whatever comes after the release of an object, it does not live again. -/
  released : ∀ id, id ∈ (empty.history ops).filterMap numberOf → ∀ later,
    (empty.applyAll (ops ++ .release id :: later)).isLive id = false
  stats_eq : (empty.applyAll ops).stats = {
    heap := ops.countP (Op.allocatesAt .heap)
    stack := ops.countP (Op.allocatesAt .stack)
    released := (empty.applyAll ops).objects.countP fun object => !object.live }

/-- A store that starts empty is a faithful memory, whatever the operations on it. -/
theorem remembers (ops : List Op) : Remembers ops := by
  have hr : Reflects (empty.applyAll ops) (empty.history ops) := reflects_empty.applyAll ops
  refine ⟨?_, fun id => hr.isLive_iff, fun id slot value => ?_, fun id slot v => hr.read_iff,
    fun op cause h later => ?_, fun id hid later => ?_, ?_⟩
  · have hsize := congrArg List.length hr.numbers
    rw [length_numbers, List.length_map, List.length_range] at hsize
    rw [hsize, hr.numbers]
  · rw [← hr.checkSlot_iff]
    cases hs : (empty.applyAll ops).checkSlot id slot <;>
      simp [apply_write_of_ok, apply_write_of_error, hs]
  · rw [applyAll_append, applyAll_append]
    exact congrArg (Store.applyAll · later) (apply_of_refused h)
  · obtain ⟨object, ho⟩ := hr.exists_object hid
    rw [applyAll_append]
    exact ((dead_release ho).applyAll later).isLive_eq_false
  · rw [hr.stats_eq, map_fst_history]

end Machine.Store

end StaticChain

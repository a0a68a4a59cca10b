import StaticChain.Machine.Run
import StaticChain.Proofs.Success

/-!
# Reading what was written

What is found in an activation and in a store after each operation that changes them: the values after
a definition, the locals after an assignment and at the start of a call, and the objects after an
allocation, a write and a release.
-/

namespace StaticChain.Machine

open Lir (ValueId LocalId StructId AllocKind)

namespace Activation

variable {a : Activation}

theorem value_eq_ok {id : ValueId} {v : Value} :
    a.value id = .ok v ↔ a.values[id.index]? = some (some v) := by
  unfold value
  split <;> simp_all

theorem local_eq_ok {id : LocalId} {v : Value} :
    a.local id = .ok v ↔ a.locals[id.index]? = some (some v) := by
  unfold «local»
  split <;> simp_all

/-- A value that is found after a definition is the new one or was there before. -/
theorem value_define {id r : ValueId} {v w : Value} (h : (a.define id v).value r = .ok w) :
    (r = id ∧ w = v) ∨ a.value r = .ok w := by
  rw [value_eq_ok] at h ⊢
  simp only [define, Array.getElem?_setIfInBounds] at h
  split at h
  · rename_i heq
    split at h
    · exact .inl ⟨congrArg ValueId.mk heq.symm, by simpa using h.symm⟩
    · simp at h
  · exact .inr h

theorem eq_of_value_define {id : ValueId} {v w : Value} (h : (a.define id v).value id = .ok w) :
    w = v := by
  rw [value_eq_ok] at h
  simp only [define, Array.getElem?_setIfInBounds, if_true] at h
  split at h
  · simpa using h.symm
  · simp at h

theorem value_define_self {id : ValueId} {v : Value} (h : id.index < a.values.size) :
    (a.define id v).value id = .ok v := by
  rw [value_eq_ok]
  simp [define, h]

theorem value_define_of_ne {id r : ValueId} {v : Value} (h : r ≠ id) :
    (a.define id v).value r = a.value r := by
  have hne : id.index ≠ r.index := fun e => h (congrArg ValueId.mk e.symm)
  unfold value
  simp [define, hne]

theorem local_assign {id x : LocalId} {v w : Value} (h : (a.assign id v).local x = .ok w) :
    (x = id ∧ w = v) ∨ a.local x = .ok w := by
  rw [local_eq_ok] at h ⊢
  simp only [assign, Array.getElem?_setIfInBounds] at h
  split at h
  · rename_i heq
    split at h
    · exact .inl ⟨congrArg LocalId.mk heq.symm, by simpa using h.symm⟩
    · simp at h
  · exact .inr h

theorem local_assign_self {x : LocalId} {v : Value} (h : x.index < a.locals.size) :
    (a.assign x v).local x = .ok v := by
  simp [local_eq_ok, assign, h]

/-- A local that is set stays set. -/
theorem exists_local_assign {id x : LocalId} {v w : Value} (h : a.local x = .ok w) :
    ∃ w, (a.assign id v).local x = .ok w := by
  rw [local_eq_ok] at h
  have hlt : x.index < a.locals.size := (Array.getElem?_eq_some_iff.1 h).1
  simp only [local_eq_ok, assign, Array.getElem?_setIfInBounds]
  split
  · rename_i heq
    exact ⟨v, by simp [heq, hlt]⟩
  · exact ⟨w, h⟩

/-- Arguments are put into the first locals. -/
theorem getElem?_foldl_args (args : List Value) (k i : Nat) (init : Array (Option Value)) :
    ((args.zipIdx k).foldl (fun locals (arg, index) => locals.setIfInBounds index (some arg))
      init)[i]? =
      if k ≤ i ∧ i < k + args.length ∧ i < init.size then some args[i - k]? else init[i]? := by
  induction args generalizing k init with
  | nil =>
    simp only [List.zipIdx_nil, List.foldl_nil, List.length_nil, Nat.add_zero]
    rw [if_neg (by omega)]
  | cons arg args ih =>
    simp only [List.zipIdx_cons, List.foldl_cons, ih, List.length_cons, Array.size_setIfInBounds,
      Array.getElem?_setIfInBounds]
    by_cases hik : k = i
    · subst hik
      by_cases hlt : k < init.size
      · rw [if_neg (by omega), if_pos rfl, if_pos hlt, if_pos (by omega)]
        simp
      · rw [if_neg (by omega), if_pos rfl, if_neg hlt, if_neg (by omega)]
        simp [hlt]
    · by_cases hin : k + 1 ≤ i ∧ i < k + 1 + args.length ∧ i < init.size
      · rw [if_pos hin, if_pos (by omega)]
        obtain ⟨j, rfl⟩ : ∃ j, i = k + 1 + j := ⟨i - (k + 1), by omega⟩
        rw [show k + 1 + j - (k + 1) = j by omega, show k + 1 + j - k = j + 1 by omega]
        simp
      · rw [if_neg hin, if_neg hik, if_neg (by omega)]

/-- The start of a call. -/
structure Entered (f : Lir.Function) (args : List Value) (dest : Option ValueId) (a : Activation) :
    Prop where
  args_length : args.length = f.callParams.length
  function_eq : a.function = f
  values_eq : a.values = Array.replicate f.valueTypes.size none
  locals_size : a.locals.size = f.locals.size
  locals_eq : ∀ i, i < f.locals.size → a.locals[i]? = some args[i]?
  owned_eq : a.owned = []
  blocks_eq : a.blocks = [⟨f.body, .straight⟩]
  dest_eq : a.dest = dest

theorem entered_of_enter {f : Lir.Function} {args : List Value} {dest : Option ValueId}
    (h : enter f args dest = .ok a) : Entered f args dest a := by
  unfold enter at h
  simp only at h
  split at h
  · rename_i hlen
    cases h
    refine ⟨hlen, rfl, rfl, ?_, ?_, rfl, rfl, rfl⟩
    · have hsize : ∀ (args : List Value) (k : Nat) (init : Array (Option Value)),
          ((args.zipIdx k).foldl (fun locals (arg, index) => locals.setIfInBounds index (some arg))
            init).size = init.size := by
        intro args
        induction args with
        | nil => simp
        | cons arg args ih => simp [ih]
      simp [hsize]
    · intro i hi
      simp only [getElem?_foldl_args, Nat.zero_le, true_and, Nat.zero_add, Nat.sub_zero,
        Array.size_replicate, hi, and_true]
      split
      · rfl
      · rename_i hge
        simp [hi, List.getElem?_eq_none (Nat.le_of_not_lt hge)]
  · cases h

theorem Entered.value_ne {f : Lir.Function} {args : List Value} {dest : Option ValueId}
    (h : Entered f args dest a) (r : ValueId) (v : Value) : a.value r ≠ .ok v := by
  rw [Ne, value_eq_ok, h.values_eq, Array.getElem?_replicate]
  split <;> simp

theorem Entered.local_eq {f : Lir.Function} {args : List Value} {dest : Option ValueId}
    (h : Entered f args dest a) {x : LocalId} {v : Value} (hx : a.local x = .ok v) :
    args[x.index]? = some v := by
  rw [local_eq_ok] at hx
  have hlt : x.index < f.locals.size := by
    rw [← h.locals_size]
    obtain ⟨hlt, -⟩ := Array.getElem?_eq_some_iff.1 hx
    exact hlt
  rw [h.locals_eq _ hlt] at hx
  exact Option.some.inj hx

end Activation

namespace Store

variable {s : Store} {o : ObjectId} {object : Object}

theorem get?_allocate (struct : StructId) (kind : AllocKind) (slots : Nat) (i : Nat) :
    (s.allocate struct kind slots).objects[i]? =
      if i = s.objects.size then some ⟨struct, kind, Array.replicate slots none, true⟩
      else s.objects[i]? := by
  simp [allocate, Array.getElem?_push]

theorem get?_set (id : ObjectId) (slot : Nat) (value : Value) (i : Nat) :
    (s.set id slot value).objects[i]? =
      if id.index = i then s.objects[i]?.map fun object =>
        { object with slots := object.slots.setIfInBounds slot (some value) }
      else s.objects[i]? := by
  simp [set, Array.getElem?_modify]

theorem get?_release (id : ObjectId) (i : Nat) :
    (s.release id).objects[i]? =
      if id.index = i then s.objects[i]?.map fun object => { object with live := false }
      else s.objects[i]? := by
  unfold release
  split
  · simp [Array.getElem?_modify]
  · rename_i hlive
    split
    · rename_i heq
      subst heq
      unfold isLive at hlive
      cases ho : s.objects[id.index]? with
      | none => rfl
      | some object =>
        simp only [ho, Option.any_some, Bool.not_eq_true] at hlive
        simp [← hlive]
    · rfl

theorem get?_releaseAll (ids : List ObjectId) (i : Nat) :
    (s.releaseAll ids).objects[i]? =
      if (⟨i⟩ : ObjectId) ∈ ids then s.objects[i]?.map fun object => { object with live := false }
      else s.objects[i]? := by
  unfold releaseAll
  induction ids generalizing s with
  | nil => simp
  | cons id ids ih =>
    rw [List.foldl_cons, ih, get?_release]
    have hid : id.index = i ↔ (⟨i⟩ : ObjectId) = id := by
      constructor
      · rintro rfl
        rfl
      · rintro rfl
        rfl
    simp only [hid, List.mem_cons]
    by_cases h₁ : (⟨i⟩ : ObjectId) = id <;> by_cases h₂ : (⟨i⟩ : ObjectId) ∈ ids <;>
      simp [h₁, h₂, Function.comp_def]

theorem size_releaseAll (ids : List ObjectId) :
    (s.releaseAll ids).objects.size = s.objects.size := by
  unfold releaseAll
  induction ids generalizing s with
  | nil => rfl
  | cons id ids ih =>
    rw [List.foldl_cons, ih]
    unfold release
    split <;> simp

/-! ### Slots that are set -/

theorem get?_next (struct : StructId) (kind : AllocKind) (slots : Nat) :
    (s.allocate struct kind slots).objects[s.next.index]? =
      some ⟨struct, kind, Array.replicate slots none, true⟩ := by
  simp [get?_allocate, next]

/-- The new object has no slot set. -/
theorem slot_of_allocate {struct : StructId} {kind : AllocKind} {slots : Nat} {object' : Object} {k : Nat}
    {v : Value} (ho : (s.allocate struct kind slots).objects[o.index]? = some object')
    (hv : object'.slots[k]? = some (some v)) : s.objects[o.index]? = some object' := by
  rw [get?_allocate] at ho
  split at ho
  · cases ho
    simp only [Array.getElem?_replicate] at hv
    split at hv <;> simp at hv
  · exact ho

/-- A slot that is set after a write is the written one or was set before. -/
theorem slot_of_set {o' : ObjectId} {object' : Object} {k j : Nat} {v w : Value}
    (ho : (s.set o k v).objects[o'.index]? = some object') (hw : object'.slots[j]? = some (some w)) :
    (o' = o ∧ j = k ∧ w = v) ∨
      ∃ object, s.objects[o'.index]? = some object ∧ object.slots[j]? = some (some w) := by
  rw [get?_set] at ho
  split at ho
  · rename_i heq
    obtain ⟨object, hobj, rfl⟩ := Option.map_eq_some_iff.1 ho
    simp only [Array.getElem?_setIfInBounds] at hw
    split at hw
    · rename_i hkj
      split at hw
      · exact .inl ⟨congrArg ObjectId.mk heq.symm, hkj.symm, by simpa using hw.symm⟩
      · simp at hw
    · exact .inr ⟨object, hobj, hw⟩
  · exact .inr ⟨object', ho, hw⟩

theorem slot_of_releaseAll {ids : List ObjectId} {object' : Object} {k : Nat} {v : Value}
    (ho : (s.releaseAll ids).objects[o.index]? = some object')
    (hv : object'.slots[k]? = some (some v)) :
    ∃ object, s.objects[o.index]? = some object ∧ object.slots[k]? = some (some v) := by
  rw [get?_releaseAll] at ho
  split at ho
  · obtain ⟨old, hold, heq⟩ := Option.map_eq_some_iff.1 ho
    exact ⟨old, hold, by rw [← heq] at hv; exact hv⟩
  · exact ⟨object', ho, hv⟩

end Store

end StaticChain.Machine

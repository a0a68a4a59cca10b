import Mathlib.Algebra.Ring.Int.Defs
import Mathlib.Algebra.Ring.Nat
import Mathlib.Data.List.Forall2
import StaticChain.Wasm.Binary.Reader

/-!
# Parts are read as they were written

A part of a binary reads a value from some bytes (`Get.Reads`) if it gives the value and leaves what follows
the bytes, whatever that is. So parts that stand one after the other are read one after the other
(`Get.Reads.bind`). Numbers are read from their shortest form if they fit (`Leb128.reads_unsigned`,
`Leb128.reads_signed`), and so are lists and names.
-/

namespace StaticChain.Wasm

open Leb128 (unsigned signed)

/-- Parts that are written are no more than their bytes. -/
theorem length_le_flatMap {α : Type} {f : α → Bytes} {l : List α} (h : ∀ a ∈ l, f a ≠ []) :
    l.length ≤ (l.flatMap f).length := by
  induction l with
  | nil => simp
  | cons a l ih =>
    obtain ⟨ha, hl⟩ := List.forall_mem_cons.1 h
    have hpos := List.length_pos_iff.2 ha
    have hrest := ih hl
    simp only [List.length_cons, List.flatMap_cons, List.length_append]
    omega

/-- The part reads the value from the bytes, and leaves what follows them. -/
def Get.Reads {α : Type} (part : Get α) (bytes : Bytes) (a : α) : Prop :=
  ∀ rest, part (bytes ++ rest) = some (a, rest)

namespace Get.Reads

variable {α β γ : Type} {part : Get α} {bytes more : Bytes} {a : α}

theorem pure (a : α) : Reads (Pure.pure a) [] a := fun _ => rfl

theorem bind {next : α → Get β} {b : β} (h : Reads part bytes a) (hnext : Reads (next a) more b) :
    Reads (part >>= next) (bytes ++ more) b := by
  intro rest
  have hstep : (part >>= next) (bytes ++ more ++ rest) =
      (part (bytes ++ (more ++ rest))).bind fun r => next r.1 r.2 := by
    rw [List.append_assoc]
    rfl
  rw [hstep, h]
  exact hnext rest

/-- The value is the last that is read, and something is made of it. -/
theorem bind_pure (f : α → β) (h : Reads part bytes a) :
    Reads (part >>= fun a => Pure.pure (f a)) bytes (f a) := by
  have hread : Reads (part >>= fun a => Pure.pure (f a)) (bytes ++ []) (f a) := h.bind (Reads.pure (f a))
  rwa [List.append_nil] at hread

theorem lift {a? : Option α} (h : a? = some a) : Reads (StateT.lift a?) [] a := by
  subst h
  exact fun _ => rfl

theorem byte (b : UInt8) : Reads Get.byte [b] b := fun _ => rfl

/-- A byte comes first, which says how to go on. -/
theorem byte_bind {b : UInt8} {next : UInt8 → Get β} {c : β} (h : Reads (next b) bytes c) :
    Reads (Get.byte >>= next) (b :: bytes) c :=
  (byte b).bind h

/-- What is read is all there is. -/
theorem all (h : Reads part bytes a) : part.all bytes = some a := by
  have hread := h []
  rw [List.append_nil] at hread
  rw [Get.all, hread]

/-- What has to start with a byte is not read from none. -/
theorem ne_nil (h : Reads part bytes a) (hnil : part [] = none) : bytes ≠ [] := by
  rintro rfl
  have hread := h []
  rw [List.append_nil, hnil] at hread
  cases hread

theorem take (bytes : Bytes) : Reads (Get.take bytes.length) bytes bytes := by
  intro rest
  simp [Get.take]

end Get.Reads

/-! ## Numbers -/

namespace Leb128

theorem toNat_ofNat {n : Nat} (h : n < 256) : (UInt8.ofNat n).toNat = n := by
  simp [Nat.mod_eq_of_lt h]

theorem ofNat_lt_iff {n k : Nat} (hn : n < 256) (hk : k < 256) : UInt8.ofNat n < UInt8.ofNat k ↔ n < k := by
  rw [UInt8.lt_iff_toNat_lt, toNat_ofNat hn, toNat_ofNat hk]

/-- Every group but the last has the high bit. -/
theorem not_add_lt {n : Nat} (h : n < 128) : ¬UInt8.ofNat (n + 128) < 128 := fun hlt =>
  Nat.not_lt.2 (Nat.le_add_left 128 n) ((ofNat_lt_iff (k := 128) (by omega) (by decide)).1 hlt)

theorem two_pow_split {bits : Nat} (h : 7 ≤ bits) : 2 ^ bits = 128 * 2 ^ (bits - 7) := by
  rw [show 128 = 2 ^ 7 by rfl, ← Nat.pow_add, Nat.add_sub_cancel' h]

/-- A number is written in more groups only if it needs more bits than a group has. -/
theorem lt_bits_of_le {bits k n : Nat} (h : n < 2 ^ bits) (hn : 2 ^ k ≤ n) : k < bits := by
  by_contra hle
  exact absurd (Nat.pow_le_pow_right Nat.two_pos (Nat.le_of_not_lt hle)) (by omega)

theorem readUnsigned_unsignedGroups (rest : Bytes) {fuel bits n : Nat} (hfuel : n < fuel)
    (hn : n < 2 ^ bits) : readUnsigned bits (unsignedGroups fuel n ++ rest) = some (n, rest) := by
  induction fuel generalizing bits n with
  | zero => omega
  | succ fuel ih =>
    rw [unsignedGroups]
    split
    · rename_i hlast
      have hlt : UInt8.ofNat n < 128 := (ofNat_lt_iff (k := 128) (by omega) (by decide)).2 hlast
      rw [List.singleton_append, readUnsigned, if_pos hlt, toNat_ofNat (by omega), Nat.one_shiftLeft, if_pos hn]
    · rename_i hmore
      have hbits : 7 < bits := lt_bits_of_le hn (Nat.le_of_not_lt hmore)
      rw [two_pow_split (Nat.le_of_lt hbits)] at hn
      rw [List.cons_append, readUnsigned, if_neg (not_add_lt (by omega)), if_pos hbits, toNat_ofNat (by omega),
        ih (by omega) (Nat.div_lt_of_lt_mul hn)]
      simp only [Option.map_some, Option.some.injEq, Prod.mk.injEq, and_true]
      omega

theorem reads_unsigned {bits n : Nat} (hn : n < 2 ^ bits) :
    Get.Reads (readUnsigned bits) (unsigned n) n :=
  fun rest => readUnsigned_unsignedGroups rest (Nat.lt_succ_self n) hn

/-- Six bits of the last group hold a number that is not negative, and the seventh one is its sign. -/
theorem readSigned_last (rest : Bytes) {bits : Nat} {n : Int} (hlast : -64 ≤ n ∧ n < 64)
    (hlow : -2 ^ bits ≤ n) (hhigh : n < 2 ^ bits) :
    readSigned (bits + 1) (UInt8.ofNat (n % 128).toNat :: rest) = some (n, rest) := by
  have hpow : ((2 ^ bits : Nat) : Int) = 2 ^ bits := by simp
  have hbyte : (n % 128).toNat < 128 := by omega
  have hsign : UInt8.ofNat (n % 128).toNat < 64 ↔ (n % 128).toNat < 64 :=
    ofNat_lt_iff (k := 64) (by omega) (by decide)
  rw [readSigned, Nat.add_sub_cancel, Nat.one_shiftLeft, toNat_ofNat (by omega)]
  by_cases hneg : 0 ≤ n
  · rw [if_pos (hsign.2 (by omega)), if_pos (by omega)]
    simp only [Option.some.injEq, Prod.mk.injEq, and_true]
    omega
  · have hlt : UInt8.ofNat (n % 128).toNat < 128 := (ofNat_lt_iff (k := 128) (by omega) (by decide)).2 hbyte
    rw [if_neg fun h => absurd (hsign.1 h) (by omega), if_pos hlt, if_pos (by omega)]
    simp only [Option.some.injEq, Prod.mk.injEq, and_true]
    omega

theorem readSigned_signedGroups (rest : Bytes) {fuel bits : Nat} {n : Int} (hfuel : n.natAbs < fuel)
    (hlow : -2 ^ bits ≤ n) (hhigh : n < 2 ^ bits) :
    readSigned (bits + 1) (signedGroups fuel n ++ rest) = some (n, rest) := by
  induction fuel generalizing bits n with
  | zero => omega
  | succ fuel ih =>
    rw [signedGroups]
    split
    · rename_i hlast
      exact readSigned_last rest hlast hlow hhigh
    · rename_i hmore
      have hpow : ((2 ^ bits : Nat) : Int) = 2 ^ bits := by simp
      have hpow' : ((2 ^ (bits - 7) : Nat) : Int) = 2 ^ (bits - 7) := by simp
      have hbits : 7 ≤ bits := by
        by_contra hle
        have := Nat.pow_le_pow_right Nat.two_pos (show bits ≤ 6 by omega)
        omega
      have hsplit := two_pow_split hbits
      have hge := not_add_lt (n := (n % 128).toNat) (by omega)
      have hge' : ¬UInt8.ofNat ((n % 128).toNat + 128) < 64 := fun h =>
        hge (UInt8.lt_trans h (by decide))
      rw [List.cons_append, readSigned, if_neg hge', if_neg hge, if_pos (by omega), toNat_ofNat (by omega),
        show bits + 1 - 7 = bits - 7 + 1 by omega, ih (by omega) (by omega) (by omega)]
      simp only [Option.map_some, Option.some.injEq, Prod.mk.injEq, and_true]
      omega

theorem reads_signed {bits : Nat} {n : Int} (hlow : -2 ^ bits ≤ n) (hhigh : n < 2 ^ bits) :
    Get.Reads (readSigned (bits + 1)) (signed n) n :=
  fun rest => readSigned_signedGroups rest (Nat.lt_succ_self _) hlow hhigh

end Leb128

/-! ## Text -/

theorem loop_toList (b : ByteArray) (i : Nat) (front : Bytes) :
    ByteArray.toList.loop b i front = front.reverse ++ b.data.toList.drop i := by
  unfold ByteArray.toList.loop
  split
  · rename_i hlt
    have hdrop : b.data.toList.drop i = b.get! i :: b.data.toList.drop (i + 1) := by
      rw [List.drop_eq_getElem_cons (by simpa using hlt)]
      congr 1
      have hget : b.get! i = b.data[i]! := rfl
      rw [hget, getElem!_pos b.data i hlt, Array.getElem_toList]
    rw [loop_toList b (i + 1), hdrop]
    simp
  · rename_i hge
    rw [List.drop_eq_nil_of_le (by simpa using hge)]
    simp
termination_by b.size - i

theorem toList_eq_data (b : ByteArray) : b.toList = b.data.toList := by
  rw [ByteArray.toList, loop_toList]
  simp

/-- Text comes back from its bytes. -/
theorem fromUTF8?_toUTF8 (text : String) : String.fromUTF8? ⟨text.toUTF8.toList.toArray⟩ = some text := by
  have hbytes : (⟨text.toUTF8.toList.toArray⟩ : ByteArray) = text.toUTF8 := by simp [toList_eq_data]
  rw [hbytes]
  exact dif_pos text.isValidUTF8

theorem length_toUTF8 (text : String) : text.toUTF8.toList.length = text.utf8ByteSize := by
  rw [toList_eq_data]
  rfl

namespace Get.Reads

variable {α β : Type} {part : Get α}

/-! ## Lists and names -/

theorem u32 {n : Nat} (h : n < UInt32.size) : Reads Get.u32 (unsigned n) n :=
  Leb128.reads_unsigned (show n < 2 ^ 32 from h)

theorem u64 {n : Nat} (h : n < UInt64.size) : Reads Get.u64 (unsigned n) n :=
  Leb128.reads_unsigned (show n < 2 ^ 64 from h)

theorem times {f : β → Bytes} {g : β → α} {l : List β} (h : ∀ b ∈ l, Reads part (f b) (g b)) :
    Reads (Get.times part l.length) (l.flatMap f) (l.map g) := by
  induction l with
  | nil => exact .pure []
  | cons b l ih =>
    obtain ⟨hb, hl⟩ := List.forall_mem_cons.1 h
    exact hb.bind ((ih hl).bind_pure _)

theorem vector {f : β → Bytes} {g : β → α} {l : List β} (hlen : l.length < UInt32.size)
    (h : ∀ b ∈ l, Reads part (f b) (g b)) : Reads (Get.vector part) (counted f l) (l.map g) :=
  (u32 hlen).bind (times h)

theorem sized {bytes : Bytes} (h : bytes.length < UInt32.size) :
    Reads Get.sized (Wasm.sized bytes) bytes :=
  (u32 h).bind (take bytes)

theorem name {text : String} (h : text.utf8ByteSize ≤ Get.maxName) :
    Reads Get.name (nameBytes text) text := by
  have hlen := length_toUTF8 text
  have hsized : Reads Get.sized (nameBytes text) text.toUTF8.toList :=
    sized (by rw [hlen]; exact Nat.lt_of_le_of_lt h (by decide))
  intro rest
  have hstep : Get.name (nameBytes text ++ rest) = (Get.sized (nameBytes text ++ rest)).bind fun r =>
      (if r.1.length ≤ Get.maxName then StateT.lift (String.fromUTF8? ⟨r.1.toArray⟩) else failure : Get String)
        r.2 := rfl
  rw [hstep, hsized rest, Option.bind_some, if_pos (hlen ▸ h), fromUTF8?_toUTF8]
  rfl

end Get.Reads

end StaticChain.Wasm

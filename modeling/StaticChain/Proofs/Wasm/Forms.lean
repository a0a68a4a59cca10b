import StaticChain.Proofs.Wasm.Contexts
import StaticChain.Proofs.Wasm.Reading

/-!
# The forms of parts

Every part of a generated module is read back from its form: numeric function types (`TypeGroup.reads_func`),
exports (`Export.reads`), and code (`Code.reads`) that is made of few kinds of instructions (`Op.IsBasic`).
The numbers in the parts have to fit into 32 bits.
-/

namespace StaticChain.Wasm

open Leb128 (unsigned signed)

/-! ## Types and exports -/

theorem ValType.reads {ty : ValType} (h : ty.isRef = false) : Get.Reads Get.valType ty.bytes ty := by
  cases ty with
  | ref type => cases h
  | _ => exact fun _ => rfl

theorem ValType.reads_vector {types : List ValType} (hlen : types.length < UInt32.size)
    (h : ∀ ty ∈ types, ty.isRef = false) :
    Get.Reads (Get.vector Get.valType) (counted ValType.bytes types) types := by
  have hread := Get.Reads.vector hlen fun ty hmem => ValType.reads (h ty hmem)
  rwa [List.map_id'] at hread

theorem TypeGroup.reads_func {type : FuncType} (h : type.IsNumeric) (hparams : type.params.length < UInt32.size)
    (hresults : type.results.length < UInt32.size) :
    Get.Reads Get.typeGroup (TypeGroup.func type).bytes (.func type) := by
  have hbody : Get.Reads (Get.compositeType 0x60)
      (counted ValType.bytes type.params ++ counted ValType.bytes type.results) (.func type) :=
    (ValType.reads_vector hparams h.1).bind ((ValType.reads_vector hresults h.2).bind_pure _)
  exact .byte_bind ((hbody.bind_pure fun body => ({ body } : SubType)).bind_pure TypeGroup.single)

theorem ExternKind.reads (kind : ExternKind) : Get.Reads Get.externKind [kind.byte] kind := by
  cases kind <;> exact fun _ => rfl

theorem Export.reads {e : Export} (hname : e.name.utf8ByteSize ≤ Get.maxName) (hindex : e.index < UInt32.size) :
    Get.Reads Get.exported e.bytes e :=
  (Get.Reads.name hname).bind ((ExternKind.reads e.kind).bind ((Get.Reads.u32 hindex).bind_pure _))

theorem reads_tag {type : Nat} (h : type < UInt32.size) : Get.Reads Get.tag (tagBytes type) type :=
  fun rest => Get.Reads.u32 h rest

/-! ## Instructions -/

/-- An access to the first memory whose alignment and offset fit their form. -/
def MemArg.Fits (arg : MemArg) : Prop :=
  arg.memory = 0 ∧ arg.align < namedMemory ∧ arg.offset < UInt64.size

/-- The instructions of which generated code is made. Numbers of locals are not bounded here, as those of a
body are kept as they are; see `Op.FewLocals`. -/
inductive Op.IsBasic : Op → Prop where
  | unreachable : IsBasic .unreachable
  | ret : IsBasic .ret
  | drop : IsBasic .drop
  | extend : IsBasic .extend
  | br {n : Nat} (h : n < UInt32.size) : IsBasic (.br n)
  | brIf {n : Nat} (h : n < UInt32.size) : IsBasic (.brIf n)
  | call {n : Nat} (h : n < UInt32.size) : IsBasic (.call n)
  | globalGet {n : Nat} (h : n < UInt32.size) : IsBasic (.globalGet n)
  | globalSet {n : Nat} (h : n < UInt32.size) : IsBasic (.globalSet n)
  | memorySize {n : Nat} (h : n < UInt32.size) : IsBasic (.memorySize n)
  | memoryGrow {n : Nat} (h : n < UInt32.size) : IsBasic (.memoryGrow n)
  | localGet (n : Nat) : IsBasic (.localGet n)
  | localSet (n : Nat) : IsBasic (.localSet n)
  | load (width : Width) {arg : MemArg} (h : arg.Fits) : IsBasic (.load width arg)
  | store (width : Width) {arg : MemArg} (h : arg.Fits) : IsBasic (.store width arg)
  | const32 (value : Int32) : IsBasic (.const32 value)
  | const64 (value : Int64) : IsBasic (.const64 value)
  | eqz (width : Width) : IsBasic (.eqz width)
  | rel (width : Width) (op : IntRel) : IsBasic (.rel width op)
  | bin (width : Width) (op : IntBin) : IsBasic (.bin width op)

attribute [simp] Op.IsBasic.unreachable Op.IsBasic.ret Op.IsBasic.drop Op.IsBasic.extend Op.IsBasic.br
  Op.IsBasic.brIf Op.IsBasic.call Op.IsBasic.globalGet Op.IsBasic.globalSet Op.IsBasic.memorySize
  Op.IsBasic.memoryGrow Op.IsBasic.localGet Op.IsBasic.localSet Op.IsBasic.load Op.IsBasic.store
  Op.IsBasic.const32 Op.IsBasic.const64 Op.IsBasic.eqz Op.IsBasic.rel Op.IsBasic.bin

/-- The number of the local that an instruction reads or writes, if any, fits. -/
def Op.FewLocals : Op → Prop
  | .localGet n | .localSet n => n < UInt32.size
  | _ => True

theorem MemArg.reads {arg : MemArg} (h : arg.Fits) : Get.Reads Get.memArg arg.bytes arg := by
  obtain ⟨align, offset, memory⟩ := arg
  obtain ⟨rfl, halign, hoffset⟩ : memory = 0 ∧ align < namedMemory ∧ offset < UInt64.size := h
  have hflags : align < UInt32.size := Nat.lt_trans halign (by decide)
  refine (Get.Reads.u32 hflags).bind ?_
  rw [if_pos halign]
  exact (Get.Reads.u64 hoffset).bind_pure _

/-- An instruction is read after its opcode. -/
theorem Get.Reads.plain {part : Get Op} {bytes : Bytes} {op : Op} (h : Get.Reads part bytes op) :
    Get.Reads (do return Token.plain (← part)) bytes (.plain op) :=
  h.bind_pure Token.plain

theorem Op.reads {op : Op} (hbasic : op.IsBasic) (hlocals : op.FewLocals) :
    Get.Reads Get.token op.bytes (.plain op) := by
  cases hbasic with
  | unreachable | ret | drop | extend => exact fun _ => rfl
  | br h | brIf h | call h | globalGet h | globalSet h | memorySize h | memoryGrow h =>
    exact .byte_bind (.plain ((Get.Reads.u32 h).bind_pure _))
  | localGet n | localSet n => exact .byte_bind (.plain ((Get.Reads.u32 hlocals).bind_pure _))
  | load width h | store width h =>
    cases width <;> exact .byte_bind (.plain ((MemArg.reads h).bind_pure _))
  | const32 value =>
    have hread := Leb128.reads_signed (show -2 ^ 31 ≤ value.toInt from value.le_toInt) value.toInt_lt
    have hback := hread.bind_pure fun n => Op.const32 (Int32.ofInt n)
    rw [Int32.ofInt_toInt] at hback
    exact .byte_bind hback.plain
  | const64 value =>
    have hread := Leb128.reads_signed (show -2 ^ 63 ≤ value.toInt from value.le_toInt) value.toInt_lt
    have hback := hread.bind_pure fun n => Op.const64 (Int64.ofInt n)
    rw [Int64.ofInt_toInt] at hback
    exact .byte_bind hback.plain
  | eqz width => cases width <;> exact fun _ => rfl
  | rel width op | bin width op => cases width <;> cases op <;> exact fun _ => rfl

/-- The tokens of generated code: basic instructions, and blocks without parameters or results. -/
def Token.IsBasic : Token → Prop
  | .plain op => op.IsBasic
  | .block ty | .loop ty | .cond ty => ty = .empty
  | .orElse | .finish => True
  | .tryTable .. => False

section

variable {op : Op} {ty : BlockType}

@[simp] theorem Token.isBasic_plain : (Token.plain op).IsBasic ↔ op.IsBasic := .rfl

@[simp] theorem Token.isBasic_block : (Token.block ty).IsBasic ↔ ty = .empty := .rfl

@[simp] theorem Token.isBasic_loop : (Token.loop ty).IsBasic ↔ ty = .empty := .rfl

@[simp] theorem Token.isBasic_cond : (Token.cond ty).IsBasic ↔ ty = .empty := .rfl

@[simp] theorem Token.isBasic_orElse : Token.orElse.IsBasic := trivial

@[simp] theorem Token.isBasic_finish : Token.finish.IsBasic := trivial

end

theorem Token.reads {t : Token} (hbasic : t.IsBasic) (hlocals : ∀ op, t = .plain op → op.FewLocals) :
    Get.Reads Get.token t.bytes t := by
  cases t with
  | plain op => exact Op.reads hbasic (hlocals op rfl)
  | block ty | loop ty | cond ty =>
    obtain rfl : ty = .empty := hbasic
    exact fun _ => rfl
  | orElse | finish => exact fun _ => rfl
  | tryTable => exact hbasic.elim

/-! ## Code -/

/-- All tokens are read, up to the end. -/
theorem Get.tokens_flatMap {ts : List Token} (h : ∀ t ∈ ts, Get.Reads Get.token t.bytes t) {fuel : Nat}
    (hfuel : ts.length ≤ fuel) : Get.tokens fuel (ts.flatMap Token.bytes) = some ts := by
  induction ts generalizing fuel with
  | nil => cases fuel <;> rfl
  | cons t ts ih =>
    obtain ⟨ht, hts⟩ := List.forall_mem_cons.1 h
    obtain ⟨fuel, rfl⟩ : ∃ k, fuel = k + 1 := ⟨fuel - 1, by simp at hfuel; omega⟩
    have hrest := ih hts (show ts.length ≤ fuel by simpa using hfuel)
    have hstep := ht (ts.flatMap Token.bytes)
    rw [List.flatMap_cons, Get.tokens]
    · simp [hstep, hrest]
    · simp [ht.ne_nil rfl]

theorem Get.expandRuns_ones {locals : List ValType} (h : locals.length ≤ maxLocals) :
    expandRuns (locals.map fun ty => (1, ty)) = some locals := by
  have hcount : ((locals.map fun ty => (1, ty)).map Prod.fst).foldl (· + ·) 0 = locals.length := by
    simp [List.foldl_map]
  rw [expandRuns, hcount, if_pos h, List.flatMap_map]
  simp

/-- Code is read back if its instructions are basic and it has few locals. -/
theorem Code.reads {code : Code} (hsize : code.bytes.length < UInt32.size)
    (hcount : code.locals.length ≤ Get.maxLocals) (htypes : ∀ ty ∈ code.locals, ty.isRef = false)
    (hbasic : ∀ t ∈ code.body, t.IsBasic) (hlocals : ∀ op, .plain op ∈ code.body → op.FewLocals) :
    Get.Reads Get.code (sized code.bytes) code := by
  have hrun : ∀ ty ∈ code.locals, Get.Reads Get.localRun (1 :: ty.bytes) (1, ty) := by
    intro ty hty
    exact (Get.Reads.u32 (show 1 < UInt32.size by decide)).bind ((ValType.reads (htypes ty hty)).bind_pure _)
  have hruns := Get.Reads.vector (Nat.lt_of_le_of_lt hcount (by decide)) hrun
  have htokens : ∀ t ∈ code.body, Get.Reads Get.token t.bytes t := by
    intro t ht
    exact Token.reads (hbasic t ht) fun op heq => hlocals op (heq ▸ ht)
  have hbody := Get.tokens_flatMap htokens (length_le_flatMap fun t ht => (htokens t ht).ne_nil rfl)
  have hfront : Get.vector Get.localRun code.bytes =
      some (code.locals.map fun ty => (1, ty), code.body.flatMap Token.bytes) := hruns _
  have hread : Get.Reads Get.code (sized code.bytes ++ ([] ++ ([] ++ []))) code :=
    (Get.Reads.sized hsize).bind ((Get.Reads.lift hfront).bind
      ((Get.Reads.lift (Get.expandRuns_ones hcount)).bind ((Get.Reads.lift hbody).bind_pure _)))
  simpa using hread

end StaticChain.Wasm

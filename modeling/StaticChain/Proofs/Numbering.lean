import StaticChain.Proofs.Destinations

/-!
# Every value is written once

Values are numbered as code is written, so the instructions of a piece of code, those of inner bodies
included, write the values between the ones it starts with and the ones it ends with, each once and in order
(`Regs.Numbers`). A whole function starts with none. So of each of its values one can speak of the
instruction that defines it (`Lir.Function.DefinesOnce`).
-/

namespace StaticChain

open Lir (ValueId LocalId StructId Inst Ty)

namespace Lir

/-- The values that code writes, in the order of its instructions. -/
def writes (code : List Inst) : List ValueId := (allInsts code).filterMap Inst.dest?

@[simp] theorem writes_nil : writes [] = [] := by simp [writes, allInsts]

theorem writes_append (c₁ c₂ : List Inst) : writes (c₁ ++ c₂) = writes c₁ ++ writes c₂ := by
  simp [writes, allInsts_append]

theorem writes_cons {inst : Inst} (hi : inst.withNested = [inst]) (code : List Inst) :
    writes (inst :: code) = inst.dest?.toList ++ writes code := by
  simp only [writes, allInsts, hi, List.singleton_append, List.filterMap_cons]
  cases inst.dest? <;> rfl

theorem writes_branch (condition : ValueId) (c₁ c₂ code : List Inst) :
    writes (.branch condition c₁ c₂ :: code) = writes (c₁ ++ (c₂ ++ code)) := by
  simp [writes, allInsts, allInsts_append, Inst.withNested, Inst.dest?, List.filterMap_cons]

theorem writes_loop (condition : ValueId) (c₁ c₂ code : List Inst) :
    writes (.loop c₁ condition c₂ :: code) = writes (c₁ ++ (c₂ ++ code)) := by
  simp [writes, allInsts, allInsts_append, Inst.withNested, Inst.dest?, List.filterMap_cons]

/-- The instructions of a function that write a value. -/
def Function.definers (f : Function) (r : ValueId) : List Inst :=
  (allInsts f.body).filter fun inst => inst.dest? == some r

/-- Every value that is written is written by one instruction. -/
def Function.DefinesOnce (f : Function) : Prop :=
  ∀ inst ∈ allInsts f.body, ∀ r, inst.dest? = some r → f.definers r = [inst]

end Lir

open Lir (writes)

namespace Regs

/-- The code writes the values that come after the first ones, each once and in order. -/
def Numbers (σ : Regs) (code : List Inst) (σ' : Regs) : Prop :=
  ∃ count, σ'.values.size = σ.values.size + count ∧
    writes code = (List.range' σ.values.size count).map ValueId.mk

namespace Numbers

variable {σ σ₁ σ₂ σ' : Regs} {c₁ c₂ code : List Inst} {inst : Inst} {ty : Ty}

theorem nil : σ.Numbers [] σ := ⟨0, rfl, by simp⟩

theorem append (h₁ : σ.Numbers c₁ σ₁) (h₂ : σ₁.Numbers c₂ σ') : σ.Numbers (c₁ ++ c₂) σ' := by
  obtain ⟨k₁, hsize₁, heq₁⟩ := h₁
  obtain ⟨k₂, hsize₂, heq₂⟩ := h₂
  refine ⟨k₁ + k₂, by omega, ?_⟩
  rw [Lir.writes_append, heq₁, heq₂, hsize₁, ← List.map_append, List.range'_append_1]

/-- An instruction that writes the next value comes first. -/
theorem next (hd : inst.dest? = some σ.next) (hi : inst.withNested = [inst])
    (h : (σ.value ty).Numbers code σ') : σ.Numbers (inst :: code) σ' := by
  obtain ⟨k, hsize, heq⟩ := h
  simp only [value_values, Array.size_push] at hsize heq
  refine ⟨k + 1, by omega, ?_⟩
  rw [Lir.writes_cons hi, hd, heq, List.range'_succ]
  rfl

/-- An instruction that writes nothing comes first. -/
theorem silent (hd : inst.dest? = none) (hi : inst.withNested = [inst]) (h : σ.Numbers code σ') :
    σ.Numbers (inst :: code) σ' := by
  obtain ⟨k, hsize, heq⟩ := h
  exact ⟨k, hsize, by rw [Lir.writes_cons hi, hd, heq]; rfl⟩

/-- A call that writes the next value, if it has a result. -/
theorem result {ret : Option Ty} (hd : inst.dest? = σ.dest ret) (hi : inst.withNested = [inst]) :
    σ.Numbers [inst] (σ.result ret) := by
  cases ret with
  | none => exact .silent hd hi .nil
  | some ty => exact .next hd hi .nil

theorem branch {condition : ValueId} {rest : List Inst} (h₁ : σ.Numbers c₁ σ₁) (h₂ : σ₁.Numbers c₂ σ₂)
    (hrest : σ₂.Numbers rest σ') : σ.Numbers (.branch condition c₁ c₂ :: rest) σ' := by
  obtain ⟨k, hsize, hwrites⟩ := h₁.append (h₂.append hrest)
  exact ⟨k, hsize, (Lir.writes_branch _ _ _ _).trans hwrites⟩

theorem loop {condition : ValueId} (h₁ : σ.Numbers c₁ σ₁) (h₂ : σ₁.Numbers c₂ σ') :
    σ.Numbers [.loop c₁ condition c₂] σ' := by
  obtain ⟨k, hsize, hwrites⟩ := h₁.append (h₂.append .nil)
  exact ⟨k, hsize, (Lir.writes_loop _ _ _ _).trans hwrites⟩

/-- A slot is addressed and read. -/
theorem read {base : ValueId} {struct : StructId} {slot : Nat} :
    σ.Numbers [.fieldAddr σ.next base struct slot, .load (σ.value .ptr).next σ.next ty]
      ((σ.value .ptr).value ty) :=
  .next rfl rfl (.next rfl rfl .nil)

/-- A slot is addressed and written. -/
theorem write {base value : ValueId} {struct : StructId} {slot : Nat} :
    σ.Numbers [.fieldAddr σ.next base struct slot, .store σ.next value ty] (σ.value .ptr) :=
  .next rfl rfl (.silent rfl rfl .nil)

end Numbers

end Regs

section

variable {n : Nesting} {s : Scope} {v : Vantage} {σ σ' : Regs} {code : List Inst}

theorem HopsCode.numbers {pointer r : ValueId} {hops : List Chain.Hop}
    (h : HopsCode σ pointer hops code r σ') : σ.Numbers code σ' := by
  induction h with
  | nil => exact .nil
  | cons _ ih => exact .next rfl rfl (.next rfl rfl ih)

theorem ChainCode.numbers {chain : Chain} {r : ValueId} (h : ChainCode v chain σ code r σ') :
    σ.Numbers code σ' := by
  cases h with | mk _ h => exact h.numbers

theorem ContextCode.numbers {context : ContextArgument} {hidden : Option ValueId}
    (h : ContextCode v context σ code hidden σ') : σ.Numbers code σ' := by
  cases h with
  | none => exact .nil
  | null => exact .next rfl rfl .nil
  | chain h => exact h.numbers

theorem ClosureContextCode.numbers {context : ContextArgument} {r : ValueId}
    (h : ClosureContextCode v context σ code r σ') : σ.Numbers code σ' := by
  cases h with
  | none => exact .next rfl rfl .nil
  | null => exact .next rfl rfl .nil
  | chain h => exact h.numbers

theorem StoresCode.numbers {struct : StructId} {object : ValueId} {stores : List SlotStore}
    (h : StoresCode struct object σ stores code σ') : σ.Numbers code σ' := by
  induction h with
  | nil => exact .nil
  | cons _ ih => exact .next rfl rfl (.silent rfl rfl ih)

theorem InstanceCode.numbers {aggregate : DeclId} {outer : Option ValueId} {fields : List ValueId}
    {r : ValueId} (h : InstanceCode n aggregate outer fields σ code r σ') : σ.Numbers code σ' := by
  cases h with | mk _ _ _ h => exact .next rfl rfl h.numbers

theorem ReadCode.numbers {x : VarId} {r : ValueId} (h : ReadCode s v x σ code r σ') : σ.Numbers code σ' := by
  cases h with
  | «local» => exact .next rfl rfl .nil
  | slot _ h => exact h.numbers.append .read

theorem WriteCode.numbers {x : VarId} {r : ValueId} (h : WriteCode s v r x σ code σ') : σ.Numbers code σ' := by
  cases h with
  | «local» => exact .silent rfl rfl .nil
  | slot _ h => exact h.numbers.append .write

mutual

theorem ExprCode.numbers {expr : Expr} {σ σ' : Regs} {code : List Inst} {r : Option ValueId} :
    ExprCode s v expr σ code r σ' → σ.Numbers code σ'
  | .int => .next rfl rfl .nil
  | .bool => .next rfl rfl .nil
  | .var h => h.numbers
  | .strict _ hl hr => hl.numbers.append (hr.numbers.append (.next rfl rfl .nil))
  | .conjunction _ hl hr _ => hl.numbers.append
      (.branch (hr.numbers.append (.silent rfl rfl .nil)) (.next rfl rfl (.silent rfl rfl .nil)) (.next rfl rfl .nil))
  | .disjunction _ hl hr _ => hl.numbers.append
      (.branch (.next rfl rfl (.silent rfl rfl .nil)) (hr.numbers.append (.silent rfl rfl .nil)) (.next rfl rfl .nil))
  | .unary h => h.numbers.append (.next rfl rfl .nil)
  | .call _ hc hargs _ _ => hc.numbers.append (hargs.numbers.append (.result rfl rfl))
  | .methodCall hr hargs _ _ => hr.numbers.append (hargs.numbers.append (.result rfl rfl))
  | .new hargs _ hc hi => hargs.numbers.append (hc.numbers.append hi.numbers)
  | .fieldGet h _ => h.numbers.append .read
  | .this _ h => h.numbers
  | .functionRef _ h _ => h.numbers.append (.next rfl rfl .nil)
  | .callValue _ _ hc hargs => hc.numbers.append (hargs.numbers.append (.result rfl rfl))

theorem ExprsCode.numbers {exprs : List Expr} {σ σ' : Regs} {code : List Inst} {rs : List ValueId} :
    ExprsCode s v exprs σ code rs σ' → σ.Numbers code σ'
  | .nil => .nil
  | .cons h hs => h.numbers.append hs.numbers

end

mutual

theorem StmtCode.numbers {stmt : Stmt} {σ σ' : Regs} {code : List Inst} :
    StmtCode s v stmt σ code σ' → σ.Numbers code σ'
  | .letVar h hw => h.numbers.append hw.numbers
  | .assignVar h hw => h.numbers.append hw.numbers
  | .assignField hb hv _ => hb.numbers.append (hv.numbers.append .write)
  | .expr h => h.numbers
  | .branch hc ht he => hc.numbers.append (.branch ht.numbers he.numbers .nil)
  | .loop hc hb => .loop hc.numbers hb.numbers
  | .retNone => .silent rfl rfl .nil
  | .ret h => h.numbers.append (.silent rfl rfl .nil)

theorem BlockCode.numbers {stmts : List Stmt} {σ σ' : Regs} {code : List Inst} :
    BlockCode s v stmts σ code σ' → σ.Numbers code σ'
  | .nil => .nil
  | .cons h hs => h.numbers.append hs.numbers

end

theorem ParamsCode.numbers {first index : Nat} {params : List VarId} {arrived : List (VarId × ValueId)}
    {locals : List (VarId × LocalId)} (h : ParamsCode n first index params σ code arrived locals σ') :
    σ.Numbers code σ' := by
  induction h with
  | nil => exact .nil
  | captured _ _ _ ih => exact .next rfl rfl ih
  | «local» _ _ ih => exact ih

theorem LocalsBound.values_eq {xs : List VarId} {locals : List (VarId × LocalId)}
    (h : LocalsBound n xs σ locals σ') : σ'.values = σ.values := by
  induction h with
  | nil => rfl
  | captured _ _ ih => exact ih
  | «local» _ _ _ _ ih => exact ih

theorem EnterCode.numbers {decl : DeclId} {incoming : Option ValueId} {arrived : List (VarId × ValueId)}
    (h : EnterCode n decl incoming arrived σ code v σ') : σ.Numbers code σ' := by
  cases h with
  | frameless => exact .nil
  | framed _ _ _ _ _ h => exact .next rfl rfl h.numbers

theorem IncomingCode.numbers {hasContext : Bool} {incoming : Option ValueId}
    (h : IncomingCode hasContext σ code incoming σ') : σ.Numbers code σ' := by
  cases h with
  | none => exact .nil
  | some _ => exact .next rfl rfl .nil

end

/-- A function writes all its values, in order. -/
theorem FunctionCode.writes_eq {s : Scope} {id : DeclId} {v : Vantage} {f : Lir.Function}
    (h : FunctionCode s id v f) : writes f.body = (List.range f.valueTypes.size).map ValueId.mk := by
  cases h with | @mk _ function _ _ _ _ _ _ _ σ₁ σ₂ σ₃ σ₄ σ₅ c₁ c₂ c₃ c₄ _ _ _ _ hi hp hl he hb =>
  have hlocals : σ₂.Numbers [] σ₃ := ⟨0, by simp [hl.values_eq], by simp⟩
  have hlast : σ₅.Numbers [if function.returnType.isUnit then .ret none else .unreachable] σ₅ := by
    split <;> exact .silent rfl rfl .nil
  obtain ⟨count, hsize, hwrites⟩ :=
    hi.numbers.append (hp.numbers.append (hlocals.append (he.numbers.append (hb.numbers.append hlast))))
  obtain rfl : σ₅.values.size = count := by simpa using hsize
  simpa [List.range_eq_range'] using hwrites

/-- An instruction of a function that writes a value is the only one that does. -/
theorem FunctionCode.definesOnce {s : Scope} {id : DeclId} {v : Vantage} {f : Lir.Function}
    (h : FunctionCode s id v f) : f.DefinesOnce := by
  intro inst hmem r hd
  have hnodup : (writes f.body).Nodup := by
    rw [h.writes_eq]
    exact List.nodup_range.map fun i j => ValueId.mk.inj
  obtain ⟨before, after, heq⟩ := List.append_of_mem hmem
  rw [writes, heq, List.filterMap_append, List.filterMap_cons_some hd, List.nodup_append] at hnodup
  obtain ⟨-, hafter, hbefore⟩ := hnodup
  have hnone : ∀ inst' ∈ before ++ after, ¬(inst'.dest? == some r) = true := by
    intro inst' hmem' hwrites
    rw [beq_iff_eq] at hwrites
    rcases List.mem_append.1 hmem' with hmem' | hmem'
    · exact hbefore r (List.mem_filterMap.2 ⟨inst', hmem', hwrites⟩) r (by simp) rfl
    · exact (List.nodup_cons.1 hafter).1 (List.mem_filterMap.2 ⟨inst', hmem', hwrites⟩)
  rw [Lir.Function.definers, heq, List.filter_append, List.filter_cons_of_pos (by simp [hd]),
    List.filter_eq_nil_iff.2 fun x hx => hnone x (List.mem_append_left _ hx),
    List.filter_eq_nil_iff.2 fun x hx => hnone x (List.mem_append_right _ hx)]
  rfl

end StaticChain

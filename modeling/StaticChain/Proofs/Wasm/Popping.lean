import StaticChain.Proofs.Assigning
import StaticChain.Proofs.Wasm.Blocks

/-!
# Generated code sets the stack pointer back

What a function does to the stack pointer can be read off its code (`Pops`). A function that moves the
pointer keeps the one of its start in a local that nothing else sets, and the pointer is set back right before
every return; a function that keeps no pointer does not move it. No branch leaves the function, and its code
ends only in a return or in a trap. All code of low-level functions is of this kind, whatever follows it
(`Site.steady_insts`), and so are the bodies of generated functions (`Site.pops_body`).
-/

namespace StaticChain.Wasm

open Lir (ValueId Inst)

/-- How a function treats the stack pointer. -/
structure Manner where
  /-- The local that keeps the stack pointer of the start. -/
  saved? : Option Nat
  /-- The code may come to its end without a return. -/
  runsOut : Bool

/-- What code may do inside of so many blocks, other than to return. -/
def Manner.Allows (μ : Manner) (depth : Nat) : Op → Prop
  | .ret => False
  | .br label => label < depth
  | .brIf label => label < depth
  | .localSet x => μ.saved? ≠ some x
  | .globalSet g => g = 1 → μ.saved?.isSome = true
  | _ => True

/-- Code that reads some locals and returns. -/
inductive Leaving : List Instr → Prop
  | ret {rest : List Instr} : Leaving (.plain .ret :: rest)
  | get {x : Nat} {rest : List Instr} : Leaving rest → Leaving (.plain (.localGet x) :: rest)

/-- Code inside of so many blocks that sets the stack pointer back wherever it returns. -/
inductive Pops (μ : Manner) : Nat → List Instr → Prop
  | done {depth : Nat} : (depth = 0 → μ.runsOut = true ∧ μ.saved? = none) → Pops μ depth []
  | plain {depth : Nat} {op : Op} {rest : List Instr} : μ.Allows depth op → Pops μ depth rest →
      Pops μ depth (.plain op :: rest)
  | block {depth : Nat} {ty : BlockType} {body rest : List Instr} : Pops μ (depth + 1) body →
      Pops μ depth rest → Pops μ depth (.block ty body :: rest)
  | loop {depth : Nat} {ty : BlockType} {body rest : List Instr} : Pops μ (depth + 1) body →
      Pops μ depth rest → Pops μ depth (.loop ty body :: rest)
  | cond {depth : Nat} {ty : BlockType} {thenBody elseBody rest : List Instr} : Pops μ (depth + 1) thenBody →
      Pops μ (depth + 1) elseBody → Pops μ depth rest → Pops μ depth (.cond ty thenBody elseBody :: rest)
  | trap {depth : Nat} {rest : List Instr} : Pops μ depth (.plain .unreachable :: rest)
  | leave {depth : Nat} {code : List Instr} : μ.saved? = none → Leaving code → Pops μ depth code
  | restore {depth x : Nat} {code : List Instr} : μ.saved? = some x → Leaving code →
      Pops μ depth (.plain (.localGet x) :: .plain (.globalSet 1) :: code)

/-- The end of a block is not the end of the function. -/
theorem Pops.inner {μ : Manner} {depth : Nat} : Pops μ (depth + 1) [] :=
  .done fun h => absurd h (Nat.succ_ne_zero depth)

/-- The code sets the stack pointer back wherever it returns, if what follows it does. -/
def Steady (μ : Manner) (depth : Nat) (code : List Instr) : Prop :=
  ∀ rest, Pops μ depth rest → Pops μ depth (code ++ rest)

namespace Steady

variable {μ : Manner} {depth : Nat} {code more body other : List Instr} {ty : BlockType}

theorem nil : Steady μ depth [] := fun _ h => h

theorem append (h : Steady μ depth code) (h' : Steady μ depth more) : Steady μ depth (code ++ more) := by
  intro rest hrest
  rw [List.append_assoc]
  exact h _ (h' _ hrest)

theorem plain {op : Op} (hop : μ.Allows depth op) (h : Steady μ depth code) :
    Steady μ depth (.plain op :: code) :=
  fun rest hrest => .plain hop (h rest hrest)

theorem block (hbody : Pops μ (depth + 1) body) (h : Steady μ depth code) :
    Steady μ depth (.block ty body :: code) :=
  fun rest hrest => .block hbody (h rest hrest)

theorem loop (hbody : Pops μ (depth + 1) body) (h : Steady μ depth code) :
    Steady μ depth (.loop ty body :: code) :=
  fun rest hrest => .loop hbody (h rest hrest)

theorem cond (hthen : Pops μ (depth + 1) body) (helse : Pops μ (depth + 1) other) (h : Steady μ depth code) :
    Steady μ depth (.cond ty body other :: code) :=
  fun rest hrest => .cond hthen helse (h rest hrest)

theorem trap : Steady μ depth (.plain .unreachable :: code) := fun _ _ => .trap

/-- Instructions that hold no others. -/
theorem flat (h : ∀ instr ∈ code, ∃ op, instr = .plain op ∧ μ.Allows depth op) : Steady μ depth code := by
  induction code with
  | nil => exact .nil
  | cons instr code ih =>
    obtain ⟨⟨op, rfl, hop⟩, hrest⟩ := List.forall_mem_cons.1 h
    exact .plain hop (ih hrest)

theorem flatMap {α : Type} {f : α → List Instr} {as : List α} (h : ∀ a ∈ as, Steady μ depth (f a)) :
    Steady μ depth (as.flatMap f) := by
  induction as with
  | nil => exact .nil
  | cons a as ih =>
    obtain ⟨ha, hrest⟩ := List.forall_mem_cons.1 h
    exact ha.append (ih hrest)

/-- The body of a block may come to its end. -/
theorem pops (h : Steady μ (depth + 1) code) : Pops μ (depth + 1) code := by
  simpa using h [] .inner

end Steady

namespace Memory

theorem steady_memoryBytes (μ : Manner) (depth : Nat) : Steady μ depth memoryBytes :=
  .flat (by simp [memoryBytes, Manner.Allows])

/-- The allocator keeps no stack pointer, and its code runs out. -/
theorem pops_allocatorBody : Pops ⟨none, true⟩ 0 (allocatorBody 0) := by
  have hgrow : Steady ⟨none, true⟩ 1 ([.plain (.globalGet 0)] ++ memoryBytes ++
      [.plain (.bin .w32 .sub), .plain (.const32 0xffff), .plain (.bin .w32 .add), .plain (.const32 pageShift),
        .plain (.bin .w32 .shrU), .plain (.memoryGrow 0), .plain (.const32 (-1)), .plain (.rel .w32 .eq),
        .cond .empty [.plain .unreachable] []]) := by
    refine .append (.append (.flat (by simp [Manner.Allows])) (steady_memoryBytes _ _)) ?_
    iterate 8 refine .plain trivial ?_
    exact .cond .trap .inner .nil
  have hcode : Steady ⟨none, true⟩ 0 (allocatorBody 0) := by
    refine .append (.append (.flat (by simp [Manner.Allows])) (steady_memoryBytes _ _)) ?_
    exact .plain trivial (.cond hgrow.pops .inner (.plain trivial .nil))
  simpa using hcode [] (.done fun _ => ⟨rfl, rfl⟩)

end Memory

/-! ## Code of low-level instructions -/

namespace Site

/-- How the function treats the stack pointer. -/
def manner (s : Site) : Manner := ⟨s.saved?, false⟩

variable {lir : Lir.Module} {f : Lir.Function} {depth : Nat}

theorem allows_localSet (hlt : (siteOf lir f).localCount < UInt32.size) {x : Nat}
    (hx : x < f.locals.size + f.valueTypes.size) : (siteOf lir f).manner.Allows depth (.localSet x) := by
  intro h
  have := (saved?_eq_of_lt hlt h).1
  omega

theorem steady_gets (rs : List ValueId) : Steady (siteOf lir f).manner depth (rs.map (siteOf lir f).get) :=
  .flat (by simp [get, Manner.Allows])

theorem steady_binary (op : Lir.BinOp) : Steady (siteOf lir f).manner depth (binary op) :=
  .flat (by cases op <;> simp [binary, Manner.Allows])

theorem steady_unary (operand : ValueId) (op : Lir.UnaryOp) :
    Steady (siteOf lir f).manner depth ((siteOf lir f).unary operand op) :=
  .flat (by cases op <;> simp [unary, get, Manner.Allows])

theorem steady_heapAlloc (size : UInt32) :
    Steady (siteOf lir f).manner depth ((siteOf lir f).memory.heapAlloc size) :=
  .flat (by simp [Memory.heapAlloc, Manner.Allows])

/-- The stack pointer is moved by a function that keeps it. -/
theorem steady_stackAlloc (h : allocatesOnStack f = true) (size : UInt32) :
    Steady (siteOf lir f).manner depth ((siteOf lir f).memory.stackAlloc size) := by
  have hmoves : (siteOf lir f).manner.Allows depth (.globalSet 1) := fun _ => by simp [manner, saved?, h]
  unfold Memory.stackAlloc
  iterate 3 refine .plain trivial ?_
  refine .plain hmoves ?_
  iterate 3 refine .plain trivial ?_
  exact .cond .trap .inner (.plain trivial .nil)

/-- A return sets the stack pointer back, whatever follows it. -/
theorem pops_leave (value : Option ValueId) (rest : List Instr) :
    Pops (siteOf lir f).manner depth ((siteOf lir f).leave value ++ rest) := by
  -- Nothing is asked of the code after a return, as it is not reached.
  have hleaving : Leaving (value.toList.map (siteOf lir f).get ++ [.plain .ret] ++ rest) := by
    cases value with
    | none => exact .ret
    | some r => exact .get .ret
  unfold leave
  cases hsaved : (siteOf lir f).saved? with
  | none => exact .leave hsaved hleaving
  | some x => exact .restore hsaved hleaving

section

variable (hlt : (siteOf lir f).localCount < UInt32.size)
include hlt

theorem allows_set {r : ValueId} (hr : r.index < f.valueTypes.size) :
    (siteOf lir f).manner.Allows depth (.localSet ((siteOf lir f).value r)) :=
  allows_localSet hlt (by rw [value_eq_of_lt hlt hr]; omega)

theorem steady_finishCall {dest : Option ValueId} (hd : ∀ r, dest = some r → r.index < f.valueTypes.size)
    (returns : Bool) : Steady (siteOf lir f).manner depth ((siteOf lir f).finishCall dest returns) := by
  cases returns with
  | false => cases dest <;> exact .nil
  | true =>
    cases dest with
    | none => exact .plain trivial .nil
    | some r => exact .plain (allows_set hlt (hd r rfl)) .nil

/-- A target of a closure is called inside of the block that its end leaves. -/
theorem steady_callTarget {dest : Option ValueId} (hd : ∀ r, dest = some r → r.index < f.valueTypes.size)
    (closure : ValueId) (args : List ValueId) (target : Lir.Function) :
    Steady (siteOf lir f).manner (depth + 1) ((siteOf lir f).callTarget dest closure args target) := by
  have hcontext : Steady (siteOf lir f).manner (depth + 2) (if target.hasContext then
      [(siteOf lir f).get closure, .plain (.load .w32 Memory.closureContext)] else []) := by
    split
    · exact .plain trivial (.plain trivial .nil)
    · exact .nil
  have hcall : Steady (siteOf lir f).manner (depth + 2) [.plain (.call (functionIndex target.id))] :=
    .plain trivial .nil
  have hleave : Steady (siteOf lir f).manner (depth + 2) [.plain (.br 1)] :=
    .plain (Nat.lt_add_left depth Nat.one_lt_two) .nil
  have hbody := (((hcontext.append (steady_gets args)).append hcall).append
    (steady_finishCall hlt hd target.ret.isSome)).append hleave
  unfold callTarget
  iterate 4 refine .plain trivial ?_
  exact .cond hbody.pops .inner .nil

theorem steady_callClosure {dest : Option ValueId} (hd : ∀ r, dest = some r → r.index < f.valueTypes.size)
    (closure : ValueId) (args : List ValueId) (sig : Lir.Signature) :
    Steady (siteOf lir f).manner depth ((siteOf lir f).callClosure dest closure args sig) :=
  .block (Steady.append (.flatMap fun target _ => steady_callTarget hlt hd closure args target) .trap).pops .nil

/-- An instruction writes its result to the local of a value. -/
theorem allows_dest (hf : f.Contained) {inst : Inst} (hc : Covers f [inst]) {dest : ValueId}
    (hd : inst.dest? = some dest := by rfl) (hi : inst.withNested = [inst] := by rfl) :
    (siteOf lir f).manner.Allows depth (.localSet ((siteOf lir f).value dest)) :=
  allows_set hlt (hf.dest_lt inst (hc.mem hi) dest hd)

end

mutual

/-- The code of an instruction sets the stack pointer back wherever it returns. -/
theorem steady_inst (hlt : (siteOf lir f).localCount < UInt32.size) (hf : f.Contained) : (inst : Inst) →
    {depth : Nat} → {code : List Instr} → (siteOf lir f).inst inst = .ok code → Covers f [inst] →
    Steady (siteOf lir f).manner depth code
  | .const .., _, _, h, hc => by
    cases h
    exact .plain trivial (.plain (allows_dest hlt hf hc) .nil)
  | .null _, _, _, h, hc => by
    cases h
    exact .plain trivial (.plain (allows_dest hlt hf hc) .nil)
  | .binary _ op .., _, _, h, hc => by
    cases h
    exact .append (.append (.plain trivial (.plain trivial .nil)) (steady_binary op))
      (.plain (allows_dest hlt hf hc) .nil)
  | .unary _ op operand, _, _, h, hc => by
    cases h
    exact .append (steady_unary operand op) (.plain (allows_dest hlt hf hc) .nil)
  | .localGet .., _, _, h, hc => by
    cases h
    exact .plain trivial (.plain (allows_dest hlt hf hc) .nil)
  | .localSet target _, _, _, h, hc => by
    cases h
    have hx := hf.target_lt _ (hc.mem rfl) target rfl
    exact .plain trivial (.plain (allows_localSet hlt (by omega)) .nil)
  | .alloc _ struct kind, _, _, h, hc => by
    rw [inst] at h
    split at h
    · cases h
    cases h
    refine .append ?_ (.plain (allows_dest hlt hf hc) .nil)
    cases kind with
    | heap => exact steady_heapAlloc _
    | stack => exact steady_stackAlloc (List.any_eq_true.2 ⟨_, hc.mem rfl, rfl⟩) _
  | .fieldAddr .., _, _, h, hc => by
    cases h
    exact .plain trivial (.plain trivial (.plain trivial (.plain (allows_dest hlt hf hc) .nil)))
  | .load .., _, _, h, hc => by
    cases h
    exact .plain trivial (.plain trivial (.plain (allows_dest hlt hf hc) .nil))
  | .store .., _, _, h, _ => by
    cases h
    exact .plain trivial (.plain trivial (.plain trivial .nil))
  | .call dest function args, _, _, h, hc => by
    rw [inst] at h
    split at h
    · cases h
    cases h
    refine .append (.append (steady_gets args) (.plain trivial .nil)) (steady_finishCall hlt ?_ _)
    exact fun r hr => hf.dest_lt _ (hc.mem rfl) r hr
  | .makeClosure .., _, _, h, hc => by
    cases h
    refine .append (steady_heapAlloc _) (.plain (allows_dest hlt hf hc) ?_)
    iterate 6 refine .plain trivial ?_
    exact .nil
  | .callClosure dest closure args sig, _, _, h, hc => by
    cases h
    exact steady_callClosure hlt (fun r hr => hf.dest_lt _ (hc.mem rfl) r hr) closure args sig
  | .branch _ thenBody elseBody, _, _, h, hc => by
    obtain ⟨hthen, helse⟩ := hc.branch
    obtain ⟨thenCode, h₁, h⟩ := bind_eq_ok.1 h
    obtain ⟨elseCode, h₂, h⟩ := bind_eq_ok.1 h
    cases h
    iterate 3 refine .plain trivial ?_
    exact .cond (steady_insts hlt hf thenBody h₁ hthen).pops (steady_insts hlt hf elseBody h₂ helse).pops .nil
  | .loop header condition body, depth, _, h, hc => by
    obtain ⟨hheader, hbody⟩ := hc.loop
    obtain ⟨headerCode, h₁, h⟩ := bind_eq_ok.1 h
    obtain ⟨bodyCode, h₂, h⟩ := bind_eq_ok.1 h
    cases h
    -- The code of a loop is inside of two blocks: a branch to the inner one repeats it, one to the outer leaves it.
    have htest : Steady (siteOf lir f).manner (depth + 2)
        [(siteOf lir f).get condition, .plain (.eqz .w64), .plain (.brIf 1)] :=
      .plain trivial (.plain trivial (.plain (Nat.lt_add_left depth Nat.one_lt_two) .nil))
    have hagain : Steady (siteOf lir f).manner (depth + 2) [.plain (.br 0)] := .plain (Nat.succ_pos _) .nil
    have hround := (((steady_insts hlt hf header h₁ hheader).append htest).append
      (steady_insts hlt hf body h₂ hbody)).append hagain
    exact .block (Steady.loop hround.pops .nil).pops .nil
  | .ret value, _, _, h, _ => by
    cases h
    exact fun rest _ => pops_leave value rest
  | .unreachable, _, _, h, _ => by
    cases h
    exact .trap

theorem steady_insts (hlt : (siteOf lir f).localCount < UInt32.size) (hf : f.Contained) : (body : List Inst) →
    {depth : Nat} → {code : List Instr} → (siteOf lir f).insts body = .ok code → Covers f body →
    Steady (siteOf lir f).manner depth code
  | [], _, _, h, _ => by
    cases h
    exact .nil
  | first :: rest, _, _, h, hc => by
    obtain ⟨code₁, h₁, h⟩ := bind_eq_ok.1 h
    obtain ⟨code₂, h₂, h⟩ := bind_eq_ok.1 h
    cases h
    exact (steady_inst hlt hf first h₁ hc.head).append (steady_insts hlt hf rest h₂ hc.tail)

end

/-- Code that is closed by a return or a trap does not run out. -/
theorem pops_insts (hlt : (siteOf lir f).localCount < UInt32.size) (hf : f.Contained) {last : Inst}
    (hlast : (∃ value, last = .ret value) ∨ last = .unreachable) {insts : List Inst} {code : List Instr}
    (h : (siteOf lir f).insts (insts ++ [last]) = .ok code) (hc : Covers f (insts ++ [last])) :
    Pops (siteOf lir f).manner 0 code := by
  induction insts generalizing code with
  | nil =>
    obtain ⟨code₁, h₁, h⟩ := bind_eq_ok.1 h
    cases h
    rcases hlast with ⟨value, rfl⟩ | rfl
    · cases h₁
      exact pops_leave value _
    · cases h₁
      exact .trap
  | cons first insts ih =>
    obtain ⟨code₁, h₁, h⟩ := bind_eq_ok.1 h
    obtain ⟨code₂, h₂, h⟩ := bind_eq_ok.1 h
    cases h
    exact steady_inst hlt hf first h₁ hc.head _ (ih h₂ hc.tail)

/-- The body of a function sets the stack pointer back wherever it returns, and it does not run out. -/
theorem pops_body (hlt : (siteOf lir f).localCount < UInt32.size) (hf : f.Contained) {code : List Instr}
    (h : (siteOf lir f).insts f.body = .ok code) : Pops (siteOf lir f).manner 0 code := by
  obtain ⟨insts, last, hbody, hlast⟩ := hf.closes
  have hcovers := Covers.body f
  rw [hbody] at h hcovers
  exact pops_insts hlt hf hlast h hcovers

end Site

end StaticChain.Wasm

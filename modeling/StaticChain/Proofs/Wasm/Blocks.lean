import StaticChain.Proofs.Destinations
import StaticChain.Proofs.Effects
import StaticChain.Proofs.Wasm.Assembly
import StaticChain.Proofs.Wasm.Steps

/-!
# Open blocks in generated code

The blocks that are open in an activation correspond to labels of generated code (`BlocksCode`): one for a
branch, two for a loop. `BlocksCode.settle` follows the machine from the end of a block to the next
instruction.
-/

namespace StaticChain.Wasm

open Lir (ValueId Inst)
open Machine (Activation Block BlockKind LoopCode Position Value)

/-- The instructions, inner ones included, are instructions of the function. -/
def Covers (f : Lir.Function) (code : List Inst) : Prop :=
  ∀ inst ∈ Lir.allInsts code, inst ∈ Lir.allInsts f.body

namespace Covers

variable {f : Lir.Function} {inst : Inst} {rest : List Inst}

theorem body (f : Lir.Function) : Covers f f.body := fun _ h => h

theorem head (h : Covers f (inst :: rest)) : Covers f [inst] := by
  intro i hi
  simp only [Lir.allInsts, List.append_nil] at hi
  exact h i (by simp [Lir.allInsts, hi])

theorem tail (h : Covers f (inst :: rest)) : Covers f rest := by
  intro i hi
  exact h i (by simp [Lir.allInsts, hi])

theorem mem (h : Covers f [inst]) (hi : inst.withNested = [inst]) : inst ∈ Lir.allInsts f.body :=
  h inst (by simp [Lir.allInsts, hi])

theorem branch {condition : ValueId} {thenBody elseBody : List Inst}
    (h : Covers f [.branch condition thenBody elseBody]) : Covers f thenBody ∧ Covers f elseBody := by
  constructor
  · intro i hi
    exact h i (by simp [Lir.allInsts, Inst.withNested, hi])
  · intro i hi
    exact h i (by simp [Lir.allInsts, Inst.withNested, hi])

theorem loop {condition : ValueId} {header body : List Inst} (h : Covers f [.loop header condition body]) :
    Covers f header ∧ Covers f body := by
  constructor
  · intro i hi
    exact h i (by simp [Lir.allInsts, Inst.withNested, hi])
  · intro i hi
    exact h i (by simp [Lir.allInsts, Inst.withNested, hi])

end Covers

namespace Site

/-- The code of some instructions of the function. -/
structure CodeOf (s : Site) (insts : List Inst) (code : List Instr) : Prop where
  covers : Covers s.function insts
  eq_ok : s.insts insts = .ok code

variable {s : Site}

theorem CodeOf.nil {code : List Instr} (h : s.CodeOf [] code) : code = [] := by
  have heq := h.eq_ok
  simp only [insts] at heq
  cases heq
  rfl

theorem CodeOf.cons {inst : Inst} {rest : List Inst} {code : List Instr} (h : s.CodeOf (inst :: rest) code) :
    ∃ first code', code = first ++ code' ∧ s.inst inst = .ok first ∧ Covers s.function [inst] ∧
      s.CodeOf rest code' := by
  have heq := h.eq_ok
  simp only [insts] at heq
  obtain ⟨first, hfirst, heq⟩ := bind_eq_ok.1 heq
  obtain ⟨code', hcode', heq⟩ := bind_eq_ok.1 heq
  cases heq
  exact ⟨first, code', rfl, hfirst, h.covers.head, h.covers.tail, hcode'⟩

/-- The code of a loop after its header: the condition is tested, the body repeats. -/
def loopTail (s : Site) (condition : ValueId) (body : List Instr) : List Instr :=
  [s.get condition, .plain (.eqz .w64), .plain (.brIf 1)] ++ body ++ [.plain (.br 0)]

/-- The code of the header and the body of a loop. -/
structure LoopOf (s : Site) (loop : LoopCode) (header body : List Instr) : Prop where
  header : s.CodeOf loop.header header
  body : s.CodeOf loop.body body

end Site

/-- The labels inside of a loop, which goes on with some code after its end. -/
def loopLabels (loop after : List Instr) (labels : List Label) : List Label :=
  ⟨0, [.loop .empty loop], [], []⟩ :: ⟨0, [], after, []⟩ :: labels

/-- The code that is left in the innermost of some blocks, and a label for each block around it. -/
inductive BlocksCode (s : Site) : List Block → List Instr → List Label → Prop
  | outermost {rest : List Inst} {code : List Instr} : s.CodeOf rest code →
      BlocksCode s [⟨rest, .straight⟩] code []
  | straight {rest : List Inst} {code after : List Instr} {outer : List Block} {labels : List Label} :
      s.CodeOf rest code → BlocksCode s outer after labels →
      BlocksCode s (⟨rest, .straight⟩ :: outer) code (⟨0, [], after, []⟩ :: labels)
  | header {loop : LoopCode} {rest : List Inst} {code header body after : List Instr} {outer : List Block}
      {labels : List Label} : s.LoopOf loop header body → s.CodeOf rest code →
      BlocksCode s outer after labels →
      BlocksCode s (⟨rest, .header loop⟩ :: outer) (code ++ s.loopTail loop.condition body)
        (loopLabels (header ++ s.loopTail loop.condition body) after labels)
  | body {loop : LoopCode} {rest : List Inst} {code header body after : List Instr} {outer : List Block}
      {labels : List Label} : s.LoopOf loop header body → s.CodeOf rest code →
      BlocksCode s outer after labels →
      BlocksCode s (⟨rest, .body loop⟩ :: outer) (code ++ [.plain (.br 0)])
        (loopLabels (header ++ s.loopTail loop.condition body) after labels)

/-- Integers are in the locals of their values. -/
def IntsIn (s : Site) (a : Activation) (locals : List Val) : Prop :=
  ∀ r x, a.value r = .ok (.int x) → locals[s.value r]? = some (.i64 x.toBitVec)

theorem toBitVec_beq_zero (x : Int64) : (x.toBitVec == 0) = decide (x = 0) := by
  rw [beq_eq_decide]
  exact decide_eq_decide.2 (Int64.toBitVec_inj (b := 0))

section

variable {s : Site} {a : Activation} {host : Host} {m : Module} {P : State → Prop} {locals : List Val}
  {arity : Nat} {callers : List Frame} {inst : Instance} {i : Inst} {loop : LoopCode}
  {header body after code : List Instr} {labels : List Label} {outer blocks blocks' : List Block}

/-- Code of the open blocks starts with their first instruction. -/
theorem Site.CodeOf.comes {rest : List Inst} (h : s.CodeOf (i :: rest) code) {more : List Instr}
    (hrest : ∀ {code}, s.CodeOf rest code → BlocksCode s blocks (code ++ more) labels)
    (k : ∀ first code labels, s.inst i = .ok first → Covers s.function [i] →
      BlocksCode s blocks code labels →
      State.Comes host m P ⟨⟨locals, [], first ++ code, labels, arity⟩, callers, inst⟩) :
    State.Comes host m P ⟨⟨locals, [], code ++ more, labels, arity⟩, callers, inst⟩ := by
  obtain ⟨first, code', rfl, hfirst, hcovers, hcode⟩ := h.cons
  rw [List.append_assoc]
  exact k first _ _ hfirst hcovers (hrest hcode)

/-- From the end of a loop's body, code comes to the first instruction of its header. -/
theorem Site.LoopOf.comes_header {rest : List Inst} (h : s.LoopOf loop header body)
    (hheader : loop.header = i :: rest) (hafter : BlocksCode s outer after labels)
    (k : ∀ first code labels, s.inst i = .ok first → Covers s.function [i] →
      BlocksCode s (⟨rest, .header loop⟩ :: outer) code labels →
      State.Comes host m P ⟨⟨locals, [], first ++ code, labels, arity⟩, callers, inst⟩) :
    State.Comes host m P ⟨⟨locals, [], [.plain (.br 0)],
      loopLabels (header ++ s.loopTail loop.condition body) after labels, arity⟩, callers, inst⟩ := by
  have hcode := h.header
  rw [hheader] at hcode
  exact .br rfl (.loop (hcode.comes (.header h · hafter) k))

/-- From the start of a loop's body, code comes to the first instruction of the next round. -/
theorem Site.LoopOf.comes_round (h : s.LoopOf loop header body) (hafter : BlocksCode s outer after labels)
    (hround : loop.round outer = .next i blocks)
    (k : ∀ first code labels, s.inst i = .ok first → Covers s.function [i] →
      BlocksCode s blocks code labels →
      State.Comes host m P ⟨⟨locals, [], first ++ code, labels, arity⟩, callers, inst⟩) :
    State.Comes host m P ⟨⟨locals, [], body ++ [.plain (.br 0)],
      loopLabels (header ++ s.loopTail loop.condition body) after labels, arity⟩, callers, inst⟩ := by
  unfold LoopCode.round at hround
  split at hround
  · rename_i hbody
    cases hround
    have hcode := h.body
    rw [hbody] at hcode
    exact hcode.comes (.body h · hafter) k
  · rename_i hbody hheader
    cases hround
    have hcode := h.body
    rw [hbody] at hcode
    cases hcode.nil
    exact h.comes_header hheader hafter k
  · cases hround

/-- At the end of a loop's header the condition is tested. -/
theorem Site.LoopOf.comes_test (h : s.LoopOf loop header body) (hafter : BlocksCode s outer after labels)
    (hints : IntsIn s a locals)
    (htest : (match a.int loop.condition with
      | .error fault => Position.fault fault
      | .ok condition => if condition = 0 then a.settle outer else loop.round outer) = .next i blocks)
    (hleave : a.settle outer = .next i blocks →
      State.Comes host m P ⟨⟨locals, [], after, labels, arity⟩, callers, inst⟩)
    (k : ∀ first code labels, s.inst i = .ok first → Covers s.function [i] →
      BlocksCode s blocks code labels →
      State.Comes host m P ⟨⟨locals, [], first ++ code, labels, arity⟩, callers, inst⟩) :
    State.Comes host m P ⟨⟨locals, [], s.loopTail loop.condition body,
      loopLabels (header ++ s.loopTail loop.condition body) after labels, arity⟩, callers, inst⟩ := by
  split at htest
  · cases htest
  rename_i x hx
  refine .localGet (hints _ _ (Activation.int_eq_ok.1 hx)) (.eqz64 (toBitVec_beq_zero x) ?_)
  split at htest
  · rename_i hzero
    rw [decide_eq_true hzero]
    exact .brIf_true rfl (hleave htest)
  · rename_i hne
    rw [decide_eq_false hne]
    exact .brIf_false (h.comes_round hafter htest k)

/-- Code follows the machine from the end of blocks to the next instruction. -/
theorem BlocksCode.settle (h : BlocksCode s blocks code labels) (hints : IntsIn s a locals)
    (hsettle : a.settle blocks = .next i blocks')
    (k : ∀ first code labels, s.inst i = .ok first → Covers s.function [i] →
      BlocksCode s blocks' code labels →
      State.Comes host m P ⟨⟨locals, [], first ++ code, labels, arity⟩, callers, inst⟩) :
    State.Comes host m P ⟨⟨locals, [], code, labels, arity⟩, callers, inst⟩ := by
  induction h with
  | @outermost rest code hcode =>
    cases rest with
    | nil => cases hsettle
    | cons inst rest =>
      cases hsettle
      rw [← List.append_nil code]
      exact hcode.comes (fun hrest => by simpa using .outermost hrest) k
  | @straight rest code after outer labels hcode hafter ih =>
    cases rest with
    | nil =>
      rw [hcode.nil]
      exact .close (ih hsettle)
    | cons inst rest =>
      cases hsettle
      rw [← List.append_nil code]
      exact hcode.comes (fun hrest => by simpa using .straight hrest hafter) k
  | @header loop rest code header body after outer labels hloop hcode hafter ih =>
    cases rest with
    | nil =>
      rw [hcode.nil]
      exact hloop.comes_test hafter hints hsettle ih k
    | cons inst rest =>
      cases hsettle
      exact hcode.comes (.header hloop · hafter) k
  | @body loop rest code header body after outer labels hloop hcode hafter ih =>
    cases rest with
    | nil =>
      rw [hcode.nil]
      simp only [Activation.settle] at hsettle
      split at hsettle
      · rename_i hheader
        cases hsettle
        exact hloop.comes_header hheader hafter k
      · rename_i hheader
        -- A loop without a header is entered again only to test its condition.
        refine .br rfl (.loop ?_)
        have hnil := hloop.header
        rw [hheader] at hnil
        rw [hnil.nil] at hloop ⊢
        exact hloop.comes_test hafter hints hsettle ih k
    | cons inst rest =>
      cases hsettle
      exact hcode.comes (.body hloop · hafter) k

end

end StaticChain.Wasm

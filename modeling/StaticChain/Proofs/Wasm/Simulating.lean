import StaticChain.Proofs.Wasm.Calling

/-!
# Generated code follows the machine

Where the machine takes a step, generated code comes to a state that shows the one after it, or traps
because memory is used up (`Sim.step`). A run of the machine that returns is followed to the end
(`Sim.run`).
-/

namespace StaticChain.Wasm

open Lir (ValueId LocalId FunctionId StructId AllocKind Inst Ty)
open Machine (Activation Block CallStack Value Object ObjectId Store Effect Outcome)

/-- A function with an instruction for a stack object sets the stack back. -/
theorem allocatesOnStack_of_mem {f : Lir.Function} {dest : ValueId} {struct : StructId}
    (hi : .alloc dest struct .stack ∈ Lir.allInsts f.body) : allocatesOnStack f = true :=
  List.any_eq_true.2 ⟨_, hi, rfl⟩

section

variable {lir : Lir.Module} {w : Module} (hw : Ready lir w) {host : Host} {A : AddressMap}
  {heap stack start : Nat} {a : Activation} {c : CallStack} {s : Store} {locals : List Val}
  {frames : List Frame} {inst : Instance} {code : List Instr} {labels : List Label}
  (h : Shown lir A heap stack start a c.waiting s locals frames inst)
include hw h

/-- An instruction is carried out. -/
theorem Shown.comes_inst (hb : BlocksCode (siteOf lir a.function) a.blocks code labels) {i : Inst}
    {first : List Instr} (hfirst : (siteOf lir a.function).inst i = .ok first) (hcovers : Covers a.function [i])
    (hsuits : Suits lir a s i) {e : Effect} (he : a.Does lir s i e) {s' : Machine.State}
    (hs : Machine.State.Moves lir ⟨a, c, s⟩ e s') :
    State.Comes host w (Sim lir s')
      ⟨⟨locals, [], first ++ code, labels, a.function.ret.toList.length⟩, frames, inst⟩ := by
  have hclosed : i.withNested = [i] → i.ClosedBy a.function.valueTypes.size a.function.ret.isSome :=
    fun hi => hw.closed _ _ h.shows.function_eq i (hcovers.mem hi)
  have hints := h.shows.ints hw
  cases he with
  | const =>
    cases hfirst
    cases hs
    exact .const64 (h.comes_set hw hb ((hclosed rfl).dest_lt _ rfl) (.int _))
  | null =>
    cases hfirst
    cases hs
    exact .const32 (h.comes_set hw hb ((hclosed rfl).dest_lt _ rfl) .null)
  | @binary dest lhs rhs op x y v hx hy hv =>
    cases hfirst
    cases hs
    obtain ⟨z, rfl⟩ := Machine.binary_eq_ok hv
    have hdiv : op = .div → ¬(x = Int64.minValue ∧ y = -1) := by
      rintro rfl ⟨rfl, rfl⟩
      exact hsuits ⟨hx, hy⟩
    simp only [List.append_assoc]
    exact .localGet (hints _ _ hx) (.localGet (hints _ _ hy) (.binary hv hdiv
      (h.comes_set hw hb ((hclosed rfl).dest_lt _ rfl) (.int _))))
  | @unary dest operand op x hx =>
    cases hfirst
    cases hs
    obtain ⟨z, hz⟩ := Machine.unary_eq op x
    rw [hz, List.append_assoc]
    exact .unary (hints _ _ hx) hz (h.comes_set hw hb ((hclosed rfl).dest_lt _ rfl) (.int _))
  | localGet hv =>
    cases hfirst
    cases hs
    obtain ⟨x, hget, hx⟩ := h.shows.local _ _ hv
    exact .localGet hget (h.comes_set hw hb ((hclosed rfl).dest_lt _ rfl) hx)
  | localSet hv hlt =>
    cases hfirst
    cases hs
    exact h.comes_localSet hw hb hlt hv
  | @alloc dest struct kind layout hlayout =>
    have hsmall := hw.small _ _ hlayout
    simp only [Site.inst, siteOf_module, hlayout] at hfirst
    cases hfirst
    cases hs with
    | allocateHeap => exact h.comes_allocateHeap hw hb hsmall ((hclosed rfl).dest_lt _ rfl)
    | allocateStack =>
      exact h.comes_allocateStack hw hb hsmall (allocatesOnStack_of_mem (hcovers.mem rfl))
        ((hclosed rfl).dest_lt _ rfl)
  | fieldAddr hv ho hlive hstruct =>
    cases hfirst
    cases hs
    exact h.comes_fieldAddr hw hb ((hclosed rfl).dest_lt _ rfl) hv _
  | load haddr ho hlive hv =>
    cases hfirst
    cases hs
    exact h.comes_load hw hb ((hclosed rfl).dest_lt _ rfl) haddr ho hlive hv (hsuits _ _ _ _ haddr ho hv)
  | store haddr hv ho hlive hk =>
    cases hfirst
    cases hs
    exact h.comes_store hw hb haddr hv ho hlive hk (hsuits _ hv)
  | call hvs =>
    cases hs with | call _ hf hcallee =>
    simp only [Site.inst, siteOf_module, hf] at hfirst
    cases hfirst
    exact h.comes_call hw hb hf (hclosed rfl).dest_lt hvs hcallee
  | makeClosure ho =>
    cases hfirst
    cases hs
    obtain ⟨hne, hknown⟩ := hsuits
    obtain ⟨g, hg⟩ := Option.isSome_iff_exists.1 hknown
    have hmem := Array.mem_of_getElem? h.shows.function_eq
    exact h.comes_makeClosure hw hb ((hclosed rfl).dest_lt _ rfl) ho hne
      ⟨g, mem_closureTargets hg hmem (hcovers.mem rfl), hg⟩
  | callClosure hclosure hvs =>
    cases hfirst
    cases hs with | call _ hf hcallee =>
    obtain ⟨g, hg, hparams, hret⟩ := hsuits _ _ hclosure
    rw [hf] at hg
    cases hg
    rw [hf, Option.any_some] at hcallee
    exact h.comes_callClosure hw hb hclosure hf hparams hret (hclosed rfl).dest_lt hvs hcallee
  | branch hx =>
    cases hs
    obtain ⟨hthen, helse⟩ := hcovers.branch
    simp only [Site.inst] at hfirst
    obtain ⟨thenCode, hthenCode, hfirst⟩ := bind_eq_ok.1 hfirst
    obtain ⟨elseCode, helseCode, hfirst⟩ := bind_eq_ok.1 hfirst
    cases hfirst
    exact h.comes_branch hw hb hx ⟨hthen, hthenCode⟩ ⟨helse, helseCode⟩
  | loop =>
    cases hs
    obtain ⟨hheader, hbody⟩ := hcovers.loop
    simp only [Site.inst] at hfirst
    obtain ⟨headerCode, hheaderCode, hfirst⟩ := bind_eq_ok.1 hfirst
    obtain ⟨bodyCode, hbodyCode, hfirst⟩ := bind_eq_ok.1 hfirst
    cases hfirst
    exact h.comes_loop hb ⟨hheader, hheaderCode⟩ ⟨hbody, hbodyCode⟩
  | retNone =>
    cases hfirst
    have hret := (hclosed rfl).ret_eq _ rfl
    cases hs with | ret _ => exact h.comes_retNone hret.symm
  | @ret value v hv =>
    cases hfirst
    have hret := ((hclosed rfl).ret_eq _ rfl).symm
    cases hs with
    | ret hnone =>
      have hd : a.dest = none := hnone.resolve_right (by simp)
      exact h.comes_ret hw hret hv (by rw [hd, Option.elim_none])
    | retValue hd => exact h.comes_ret hw hret hv (by rw [hd, Option.elim_some])

end

section

variable {lir : Lir.Module} {w : Module} (hw : Ready lir w) {host : Host} {s s' : Machine.State} {t : State}
  (h : Sim lir s t)
include hw h

/-- A step of the machine is followed. -/
theorem Sim.step (hs : s.Step lir s')
    (hsuits : ∀ i blocks, s.active.settle s.active.blocks = .next i blocks → Suits lir s.active s.store i) :
    State.Comes host w (Sim lir s') t := by
  obtain ⟨i, blocks, hsettle, hstep⟩ := hs
  obtain ⟨e, he, hmoves⟩ := Machine.State.step_eq_running hstep
  cases h with | mk h hb =>
  exact hb.settle (h.shows.ints hw) hsettle fun first code labels hfirst hcovers hb =>
    (h.withBlocks blocks).comes_inst hw hb hfirst hcovers (hsuits i blocks hsettle) he hmoves

/-- Where the machine returns a number or nothing, so does code. -/
theorem Sim.last {i : Inst} {blocks : List Block} (hsettle : s.active.settle s.active.blocks = .next i blocks)
    {result : Option Int64} {store : Store}
    (hstep : (s.take blocks).step lir i = .stopped (.returned (result.map .int)) store) :
    State.Comes host w (fun t => ∃ inst, t.step host w =
      .returned (result.map fun x => Val.i64 x.toBitVec).toList inst) t := by
  obtain ⟨hdoes, hwaiting⟩ := Machine.State.step_eq_returned hstep
  cases h with | @mk _ _ _ _ a c _ _ _ _ _ _ h hb =>
  refine hb.settle (h.shows.ints hw) hsettle fun first code labels hfirst hcovers _ => ?_
  have hclosed := fun hi => hw.closed _ _ h.shows.function_eq i (hcovers.mem hi)
  have h := h.withBlocks blocks
  rw [show c.waiting = [] from hwaiting] at h
  cases result with
  | none =>
    cases hdoes
    cases hfirst
    exact h.comes_lastNone ((hclosed rfl).ret_eq _ rfl).symm
  | some x =>
    cases hdoes with | ret hv =>
    cases hfirst
    exact h.comes_last hw ((hclosed rfl).ret_eq _ rfl).symm hv

omit h in
/-- A run of the machine that returns a number or nothing is followed to its end. -/
theorem Sim.run {maxSteps left steps : Nat} {result : Option Int64}
    (hrun : (Machine.run lir maxSteps left s steps).outcome = .returned (result.map .int)) (h : Sim lir s t)
    (hsuits : ∀ k s' i blocks, Machine.State.Steps lir k s s' →
      s'.active.settle s'.active.blocks = .next i blocks → Suits lir s'.active s'.store i) :
    State.Comes host w (fun t => ∃ inst, t.step host w =
      .returned (result.map fun x => Val.i64 x.toBitVec).toList inst) t := by
  induction left generalizing s t steps with
  | zero =>
    unfold Machine.run at hrun
    split at hrun <;> cases hrun
  | succ left ih =>
    unfold Machine.run at hrun
    split at hrun
    · cases hrun
    · cases hrun
    rename_i i blocks hsettle
    simp only at hrun
    split at hrun
    · rename_i hstep
      simp only at hrun
      subst hrun
      exact h.last hw hsettle hstep
    · rename_i s' hstep
      have hs : s.Step lir s' := ⟨i, blocks, hsettle, hstep⟩
      refine (h.step hw hs fun i blocks => hsuits 0 s i blocks (.refl s)).bind fun t' h' => ?_
      exact ih hrun h' fun k s'' i blocks hsteps => hsuits (k + 1) s'' i blocks (.head hs hsteps)

end

end StaticChain.Wasm

import StaticChain.Proofs.AllocationPolicy
import StaticChain.Proofs.Calls
import StaticChain.Proofs.Entering
import StaticChain.Proofs.Limits

/-!
# Compiled programs do what they mean

The evaluator of `Program.evaluate` knows nothing of frames and chains. A call of a compiled function ends
as the function evaluates (`callByName_endsAs_evaluates`): with a value that stands for the
result, or with a fault that fits the reason why there is none. Where the evaluation goes on, so does the
call, until its budget is used up.
-/

namespace StaticChain

open Lir (ValueId FunctionId Inst Ty)
open Machine

/-- The value is what can be seen of the result from outside: an integer, some instance, or the function
of a closure. -/
inductive Nesting.Shows (n : Nesting) : Option Datum → Option Value → Prop
  | none : Shows n none none
  | int (x : Int64) : Shows n (some (.int x)) (some (.int x))
  | «instance» {env : Env} {o : ObjectId} : Shows n (some (.instance env)) (some (.object o))
  | closure {id : DeclId} {env : Env} {target : FunctionId} {context : Option ObjectId} :
      n.scope.function? id = some target →
      Shows n (some (.closure id env)) (some (.closure target context))

/-- A call ends as an evaluation does. -/
inductive Nesting.EndsAs (n : Nesting) : Except Stop (Option Datum) → Outcome → Prop
  | returned {res : Option Datum} {value : Option Value} : n.Shows res value →
      EndsAs n (.ok res) (.returned value)
  | failed {stop : Stop} {cause : Fault} : n.Causes stop cause → EndsAs n (.error stop) (.failed cause)

/-- After so many steps the call has ended. -/
structure Machine.State.Ends (m : Lir.Module) (k : Nat) (s : State) (outcome : Outcome) : Prop where
  outcome_eq : ∀ maxSteps left steps, k ≤ left → (run m maxSteps left s steps).outcome = outcome
  exhausted : s.Exhausts m k

/-! ## A call from outside -/

section

variable {n : Nesting} {m : Lir.Module}

theorem Returns.shows {W : Placement} {a : Activation} {ty : ValueType} {res : Option Datum}
    {r : Option ValueId} (h : Returns n W a ty res r) : ∃ value, n.Shows res value ∧
      ∀ cont store, (a.resume cont).Does m store (.ret r) (.ret value) := by
  cases h with
  | none _ => exact ⟨Option.none, .none, fun _ _ => .retNone⟩
  | value hrep hr =>
    cases hrep with
    | int _ => exact ⟨_, .int _, fun _ _ => .ret hr⟩
    | «instance» _ _ => exact ⟨_, .instance, fun _ _ => .ret hr⟩
    | closure htarget _ _ => exact ⟨_, .closure htarget, fun _ _ => .ret hr⟩

/-- The return of the first activation ends the call. -/
theorem Machine.State.ends_of_ret {a : Activation} {cont : Cont} {store : Store} {r : Option ValueId}
    {value : Option Value} (h : (a.resume cont).Does m store (.ret r) (.ret value)) :
    State.Ends m 1 ⟨a.resume (cont.before [.ret r]), .empty, store⟩ (.returned value) := by
  have hstep : State.step m ⟨a.resume cont, .empty, store⟩ (.ret r) =
      .stopped (.returned value) (store.releaseAll a.owned) := by
    simp only [State.step, h.effect_eq]
    rfl
  refine ⟨fun maxSteps left steps hle => ?_, State.exhausts_before⟩
  rw [State.run_of_stopped hstep hle]

theorem Machine.State.Leads.ends {s s' : State} {k k' : Nat} {outcome : Outcome} (h : s.Leads m k s')
    (h' : s'.Ends m k' outcome) : s.Ends m (k + k') outcome := by
  refine ⟨?_, h.exhausts h'.exhausted⟩
  intro maxSteps left steps hle
  rw [h.run_eq _ _ _ (by omega)]
  exact h'.outcome_eq _ _ _ (by omega)

/-- Integers stand for integers. -/
theorem representsAll_ints {W : Placement} {tys : List ValueType} {args : List Int64}
    (hlen : tys.length = args.length) (htys : ∀ ty ∈ tys, ty.IsScalar) :
    RepresentsAll n W tys (args.map .int) (args.map .int) := by
  induction tys generalizing args with
  | nil =>
    cases args with
    | nil => exact .nil
    | cons => cases hlen
  | cons ty tys ih =>
    cases args with
    | nil => cases hlen
    | cons x args =>
      exact .cons (.int (htys ty (by simp))) (ih (by simpa using hlen) fun ty hty => htys ty (by simp [hty]))

/-- The parameters that take integers are integers or truth values. -/
theorem ParamTypes.isScalar {p : Program} {xs : List VarId} {tys : List Ty} (h : ParamTypes p xs tys)
    (hints : ∀ ty ∈ tys, ty = .i64) : ∀ ty ∈ xs.map p.varType, ty.IsScalar := by
  induction h with
  | nil => simp
  | @cons x ty xs tys hx _ ih =>
    obtain ⟨var, hv, hty⟩ := hx
    obtain rfl := hints ty (by simp)
    intro ty' hmem
    rcases List.mem_cons.1 hmem with rfl | hmem
    · rw [Program.varType_eq hv]
      cases hvar : var.ty <;> simp [hvar, ValueType.storage?] at hty
      · exact .inl rfl
      · exact .inr rfl
    · exact ih (fun ty hty => hints ty (by simp [hty])) ty' hmem

/-- What a function of the module has of its declaration. -/
theorem FunctionCode.exists_function (hs : n.scope.nesting = n) {id : DeclId} {v : Vantage} {f : Lir.Function}
    (h : FunctionCode n.scope id v f) : ∃ function, n.program.function? id = some function ∧
      ParamTypes n.program function.params f.params ∧ f.decl = id ∧ f.name = n.program.qualifiedName id ∧
      f.hasContext = (n.program.parent? id).isSome := by
  cases h with | @mk decl function _ _ _ _ _ _ _ _ _ _ _ _ _ _ _ _ hd hk _ hparams =>
  rw [hs] at hd hparams
  exact ⟨function, Program.function?_eq_some_iff.2 ⟨decl, hd, hk⟩, hparams, rfl, by rw [hs],
    by simp [Program.parent?, hd]⟩

/-- A call by name enters a function at top level, whose path is the name. -/
theorem Machine.Enters.exists_function {policy : FramePolicy} {machine : Machine} {name : String}
    {args : List Int64} {s : State} (h : machine.Enters name args s)
    (hm : n.Lowers policy machine.module) :
    ∃ id function v, s.active.function.decl = id ∧ n.program.function? id = some function ∧
      n.program.parent? id = none ∧ n.program.qualifiedName id = name ∧
      FunctionCode n.scope id v s.active.function ∧
      RepresentsAll n (fun _ => none) (function.params.map n.program.varType) (args.map .int)
        (args.map .int) := by
  obtain ⟨id, -, _, v, -, -, hcode⟩ := hm.exists_code (hm.function?_of_findFunction? h.found)
  obtain ⟨function, hf, hparams, hdecl, hpath, hcontext⟩ := hcode.exists_function n.scope_nesting
  have hname : s.active.function.name = name := by simpa using Array.find?_some h.found
  refine ⟨id, function, v, hdecl, hf, ?_, hpath.symm.trans hname, hcode, ?_⟩
  · rw [h.free] at hcontext
    simpa using hcontext.symm
  · refine representsAll_ints ?_ (hparams.isScalar h.ints)
    have hcount := (Activation.entered_of_enter h.entered).args_length
    simpa [Lir.Function.callParams, h.free, hparams.length_eq] using hcount.symm

/-- With all frames on the heap, a call ends as the evaluation of its function does. -/
theorem Machine.Enters.ends (hm : n.Lowers .alwaysHeap m) (ht : n.program.TypeCorrect)
    (hr : n.program.ReturnsMatch) {machine : Machine} (hmodule : machine.module = m)
    (hlive : machine.store.AllLive) {name : String} {args : List Int64} {s : State}
    (h : machine.Enters name args s) (limit : Nat) :
    (n.program.evaluate limit maxDepth s.active.function.decl args = .error .unfinished ∧
        s.Exhausts m limit) ∨
      ∃ k outcome, n.EndsAs (n.program.evaluate limit maxDepth s.active.function.decl args) outcome ∧
        s.Ends m k outcome := by
  subst hmodule
  obtain ⟨id, function, v, hdecl, hf, hroot, -, hcode, hds⟩ := h.exists_function hm
  rw [hdecl]
  obtain ⟨a, c, store⟩ := s
  obtain rfl : c = .empty := h.callers_eq
  obtain rfl : store = machine.store := h.store_eq
  have hd : Depicts n (fun _ => none) .empty machine.store := ⟨nofun, nofun, nofun⟩
  have haround : Around n (fun _ => none) (n.program.parent? id) [] none := by
    rw [hroot]
    exact .nil
  have hentered := Activation.entered_of_enter h.entered
  have hhidden : args.map Value.int = n.hiddenArgs id none ++ args.map .int := by
    simp [Nesting.hiddenArgs, hroot]
  rw [hhidden] at hentered
  have hhandled : Handled n machine.module limit .empty (n.program.evalCall limit (maxDepth - 1)) :=
    handled hm ht hr limit rfl
  have hfollows := hcode.follows hm ht hr hhandled hf hd hlive haround hds hentered
  have heval : n.program.evaluate limit maxDepth id args =
      (n.program.evalCall limit (maxDepth - 1 + 1) id [] (args.map .int) .empty).map Prod.fst := rfl
  rw [heval]
  unfold Follows at hfollows
  split at hfollows
  · rename_i res memory' heq
    obtain ⟨k, s', -, hleads, W', a', store', cont, r, rfl, -, -, -, -, hret, -, -⟩ := hfollows
    obtain ⟨value, hshows, hdoes⟩ := hret.shows (m := machine.module)
    rw [heq]
    exact .inr ⟨k + 1, _, .returned hshows, hleads.ends (State.ends_of_ret (hdoes cont store'))⟩
  · rename_i heq
    rw [heq]
    exact .inl ⟨rfl, hfollows⟩
  · rename_i stop hstop heq
    obtain ⟨k, cause, hcause, hfails⟩ := hfollows
    rw [heq]
    exact .inr ⟨k, _, .failed hcause, hfails.outcome_eq, hfails.exhausted⟩

end

/-! ## Either policy -/

section

variable {n : Nesting} {policy : FramePolicy} {m : Lir.Module} {machine : Machine} {name : String}
  {args : List Int64} {s : State}

/-- The tables of a program with every frame on the heap. -/
def Nesting.heaped (n : Nesting) : Nesting := n.replan (.of n.program n.layouts .alwaysHeap)

theorem Nesting.Built.lowers_heaped (hn : n.Built policy) (hc : n.program.ChildrenDistinct)
    (h : n.lower = .ok m) : n.heaped.Lowers .alwaysHeap m.onHeap := by
  refine lowers_of_lower (n := n.heaped) ⟨hn.checked, hn.captures_eq, hn.layouts_eq, rfl⟩ hc ?_
  rw [heaped, lower_replan hn.checked hc _ fun owner => by
    rw [FramePlan.kind?_alwaysHeap policy, ← hn.plan_eq], h]
  rfl

/-- What a call ends with does not depend on where the frames are. -/
theorem Nesting.EndsAs.of_heaped (hn : n.program.Checked) (hc : n.program.ChildrenDistinct)
    {r : Except Stop (Option Datum)} {outcome : Outcome} (h : n.heaped.EndsAs r outcome) :
    n.EndsAs r outcome := by
  have hscope : ∀ id, n.heaped.scope.function? id = n.scope.function? id := by
    intro id
    rw [scope_eq hn hc, scope_eq (n := n.heaped) hn hc]
    rfl
  cases h with
  | returned h =>
    refine .returned ?_
    cases h with
    | none => exact .none
    | int x => exact .int x
    | «instance» => exact .instance
    | closure htarget => exact .closure (hscope _ ▸ htarget)
  | failed h =>
    refine .failed ?_
    cases h with
    | divisionByZero => exact .divisionByZero
    | localUnset hv => exact .localUnset hv
    | slotUnset hl hslot hkind => exact .slotUnset hl hslot hkind
    | resultMissing hf hunit => exact .resultMissing hf hunit
    | depthExceeded => exact .depthExceeded

theorem Machine.Called.heapOk (hm : n.Lowers policy m) {maxSteps : Nat} (h : Called m maxSteps machine) :
    HeapOk machine.store := by
  induction h with
  | boot =>
    intro o object ho
    cases ho
  | call name args hcalled ih =>
    exact (callByName_onHeap ((hcalled.module_eq hm).1 ▸ hm) ih name args).2.2.1

theorem Machine.Enters.onHeap (h : machine.Enters name args s) : machine.onHeap.Enters name args s.onHeap := by
  obtain ⟨hfound, hfree, hints, hentered, hcallers, hstore⟩ := h
  refine ⟨?_, hfree, hints, ?_, ?_, congrArg Store.onHeap hstore⟩
  · exact (findFunction?_onHeap _ name).trans (congrArg (Option.map Lir.Function.onHeap) hfound)
  · have := Activation.onHeap_enter s.active.function (args.map .int) none
    rw [hentered] at this
    exact this
  · obtain ⟨a, c, store⟩ := s
    obtain rfl : c = .empty := hcallers
    rfl

/-- A call that is not refused is a run. -/
theorem Machine.Enters.outcome_eq (hm : n.Lowers policy machine.module) (h : machine.Enters name args s) :
    (machine.callByName name args).1 =
      (run machine.module machine.maxSteps (machine.maxSteps - machine.steps) s machine.steps).outcome := by
  obtain ⟨a, c, store⟩ := s
  obtain rfl : c = .empty := h.callers_eq
  obtain rfl : store = machine.store := h.store_eq
  have hfree : a.function.hasContext = false := h.free
  have hlen : a.function.params.length = args.length := by
    have := (Activation.entered_of_enter h.entered).args_length
    simpa [Lir.Function.callParams, hfree] using this.symm
  have hparams : ¬(a.function.params.length ≠ args.length ∨ a.function.params.any (· != .i64) = true) := by
    simpa [hlen] using h.ints
  unfold callByName
  simp only [h.found, hfree, Bool.false_eq_true, if_false, if_neg hparams]
  unfold Machine.call
  simp only [hm.function?_of_findFunction? h.found, h.entered]

/-- How a call ends that is made with this budget. -/
def Machine.outcomeWithin (machine : Machine) (budget : Nat) (name : String) (args : List Int64) : Outcome :=
  ({ machine with maxSteps := budget }.callByName name args).1

/-- A call ends as the evaluation of its function does, or goes on until its budget is used up. -/
theorem Machine.Called.ends (hn : n.Built policy) (hc : n.program.ChildrenDistinct) (hlower : n.lower = .ok m)
    (ht : n.program.TypeCorrect) (hr : n.program.ReturnsMatch) {maxSteps : Nat}
    (hcalled : Called m maxSteps machine) (h : machine.Enters name args s) (limit : Nat) :
    (n.program.evaluate limit maxDepth s.active.function.decl args = .error .unfinished ∧
        ∀ budget, budget - machine.steps < limit → (machine.outcomeWithin budget name args).IsExhausted) ∨
      ∃ k outcome, n.EndsAs (n.program.evaluate limit maxDepth s.active.function.decl args) outcome ∧
        ∀ budget, (k ≤ budget - machine.steps → machine.outcomeWithin budget name args = outcome) ∧
          (budget - machine.steps < k → (machine.outcomeWithin budget name args).IsExhausted) := by
  have hm := Nesting.lowers_of_lower hn hc hlower
  have hheaped := hn.lowers_heaped hc hlower
  obtain ⟨rfl, -⟩ := hcalled.module_eq hm
  have hheap := hcalled.heapOk hm
  -- The call of the machine with everything on the heap ends in the same way.
  have houtcome : ∀ budget, machine.outcomeWithin budget name args =
      (run machine.module.onHeap budget (budget - machine.steps) s.onHeap machine.steps).outcome := by
    intro budget
    have henters : ({ machine.onHeap with maxSteps := budget } : Machine).Enters name args s.onHeap :=
      ⟨h.onHeap.found, h.onHeap.free, h.onHeap.ints, h.onHeap.entered, h.onHeap.callers_eq, h.onHeap.store_eq⟩
    have hlowers : n.Lowers policy ({ machine with maxSteps := budget } : Machine).module := hm
    have hsame := congrArg Prod.fst (callByName_onHeap hlowers hheap name args).1
    exact hsame.symm.trans (henters.outcome_eq hheaped)
  rcases h.onHeap.ends hheaped ht hr rfl (Store.allLive_onHeap _) limit with
    ⟨heq, hexhausts⟩ | ⟨k, outcome, hends, hrun⟩
  · refine .inl ⟨heq, fun budget hlt => ?_⟩
    rw [houtcome]
    exact hexhausts _ _ _ hlt
  · refine .inr ⟨k, outcome, hends.of_heaped hn.checked hc, fun budget => ⟨fun hle => ?_, fun hlt => ?_⟩⟩
    · rw [houtcome]
      exact hrun.outcome_eq _ _ _ hle
    · rw [houtcome]
      exact hrun.exhausted _ _ _ hlt

end

/-- Compiled programs do what they mean. A call of a compiled function that is not refused, made with any
budget after any other calls, ends as the function evaluates: after a number of steps that the budget does
not matter for, with a value that shows the result or a fault that fits the reason why there is none. Where
the call ends by itself there is such a result, so a function whose evaluation does not end uses up every
budget. The evaluation allows for as many activations as the machine does; one that needs more ends in
the machine for want of depth. -/
theorem callByName_endsAs_evaluates {p : Program} (hp : p.check = .ok ()) (hc : p.ChildrenDistinct)
    (ht : p.TypeCorrect) (hr : p.ReturnsMatch) {settings : Settings} {u : CompiledUnit}
    (hu : settings.compile p = .ok u) :
    ∃ n, Nesting.of p settings.frames = .ok n ∧ ∀ {maxSteps : Nat} {machine : Machine} {name : String}
      {args : List Int64} {s : State}, Called u.lir maxSteps machine → machine.Enters name args s →
      ∃ id, s.active.function.decl = id ∧ p.parent? id = none ∧ p.qualifiedName id = name ∧
        (∀ r, p.Evaluates maxDepth id args r → ∃ k outcome, n.EndsAs r outcome ∧
          ∀ budget, (k ≤ budget - machine.steps → machine.outcomeWithin budget name args = outcome) ∧
            (budget - machine.steps < k → (machine.outcomeWithin budget name args).IsExhausted)) ∧
        (∀ budget, (machine.outcomeWithin budget name args).IsExhausted ∨ ∃ r,
          p.Evaluates maxDepth id args r ∧ n.EndsAs r (machine.outcomeWithin budget name args)) ∧
        ∀ depth r, p.Evaluates depth id args r → r ≠ .error .depthExceeded →
          p.Evaluates maxDepth id args r ∨ p.Evaluates maxDepth id args (.error .depthExceeded) := by
  obtain ⟨n, hn, hlower⟩ := Nesting.exists_of_compile hu
  obtain ⟨rfl, hbuilt⟩ := Nesting.built_of_eq_ok (Program.checked_of_check hp) hn
  have hm := Nesting.lowers_of_lower hbuilt hc hlower
  refine ⟨n, hn, fun {maxSteps machine name args s} hcalled henters => ?_⟩
  have hmachine : n.Lowers settings.frames machine.module := (hcalled.module_eq hm).1 ▸ hm
  obtain ⟨id, -, -, hdecl, -, hroot, hname, -, -⟩ := henters.exists_function hmachine
  have hends := fun limit => hcalled.ends hbuilt hc hlower ht hr henters limit
  rw [hdecl] at hends
  refine ⟨id, hdecl, hroot, hname, ?_, ?_, ?_⟩
  · rintro r ⟨hne, limit, rfl⟩
    exact (hends limit).resolve_left fun h => hne h.1
  · intro budget
    rcases hends (budget - machine.steps + 1) with ⟨-, hexhausted⟩ | ⟨k, outcome, hends, hrun⟩
    · exact .inl (hexhausted budget (Nat.lt_succ_self _))
    · by_cases hle : k ≤ budget - machine.steps
      · refine .inr ⟨_, ⟨?_, _, rfl⟩, (hrun budget).1 hle ▸ hends⟩
        intro hunfinished
        rw [hunfinished] at hends
        cases hends with | failed h => cases h
      · exact .inl ((hrun budget).2 (by omega))
  · intro depth r h hne
    rcases Nat.le_total depth maxDepth with hle | hle
    · exact .inl (h.mono hne hle)
    · exact h.of_le hle

/-- A call of the running total is not refused. -/
theorem exists_enters_tally : ∃ u s, ({} : Settings).compile tally = .ok u ∧
    (boot u.lir 60).Enters "main" [5] s ∧ s.active.function.decl = ⟨0⟩ := by
  obtain ⟨u, hu⟩ := exists_of_isOk
    (show (({} : Settings).compile tally).isOk = true by decide +kernel)
  have hentry : (({} : Settings).compile tally).toOption.any (fun u =>
      ((boot u.lir 60).start? "main" [5]).any fun s => s.active.function.decl == ⟨0⟩) = true := by
    decide +kernel
  simp only [hu, Except.toOption, Option.any_some, Option.any_eq_true, beq_iff_eq] at hentry
  obtain ⟨s, hs, hdecl⟩ := hentry
  exact ⟨u, s, hu, enters_of_start? hs, hdecl⟩

/-- With enough steps the running total is what it evaluates to. -/
theorem callByName_endsAs_evaluates_tally : ∃ u s k, ({} : Settings).compile tally = .ok u ∧
    (boot u.lir 60).Enters "main" [5] s ∧
    ∀ budget, k ≤ budget → (boot u.lir 60).outcomeWithin budget "main" [5] =
      .returned (some (.int 21)) := by
  obtain ⟨u, s, hu, henters, hdecl⟩ := exists_enters_tally
  obtain ⟨n, -, hall⟩ := callByName_endsAs_evaluates tally_check tally_childrenDistinct tally_typeCorrect
    tally_returnsMatch hu
  obtain ⟨id, hid, -, -, hends, -⟩ := hall .boot henters
  rw [hdecl] at hid
  subst hid
  have heval : tally.Evaluates maxDepth ⟨0⟩ [5] (.ok (some (.int 21))) := ⟨nofun, 0, by decide +kernel⟩
  obtain ⟨k, outcome, hshows, hrun⟩ := hends _ heval
  cases hshows with | returned hshows =>
  cases hshows
  exact ⟨u, s, k, hu, henters, fun budget hle => (hrun budget).1 hle⟩

end StaticChain

import StaticChain.Proofs.Effects
import StaticChain.Proofs.Evaluation

/-!
# Machines that follow an evaluation

`State.Leads` says that a machine gets from one state to another in a number of steps, whatever its budget,
and `State.Fails` that it ends with a fault. A machine `Follows` an evaluation when it gets to a state that
fits the result, or ends with a fault that fits the reason why there is none. An evaluation that does not
finish is followed by so many steps that no budget up to that number is enough.

Where control is in an activation is told by a `Cont`: what is left of the innermost block, and the blocks
around it. Closing a block costs nothing, so it leads on in no steps.
-/

namespace StaticChain

open Lir (Inst ValueId)

namespace Machine

/-! ## Where control is -/

/-- What is left to be executed: the rest of a block and the blocks around it. -/
structure Cont where
  rest : List Inst
  kind : BlockKind
  outer : List Block

namespace Cont

def blocks (k : Cont) : List Block := ⟨k.rest, k.kind⟩ :: k.outer

/-- Some code is executed first. -/
def before (k : Cont) (code : List Inst) : Cont := { k with rest := code ++ k.rest }

@[simp] theorem before_append (k : Cont) (c₁ c₂ : List Inst) :
    k.before (c₁ ++ c₂) = (k.before c₂).before c₁ := by
  simp [before]

theorem before_cons (k : Cont) (inst : Inst) (code : List Inst) :
    k.before (inst :: code) = (k.before code).before [inst] := rfl

/-- The start of a block inside. -/
def inside (k : Cont) (kind : BlockKind) : Cont := ⟨[], kind, k.blocks⟩

end Cont

/-- The activation with control at some place. -/
def Activation.resume (a : Activation) (k : Cont) : Activation := { a with blocks := k.blocks }

theorem Activation.settle_congr {a b : Activation} (hv : a.values = b.values)
    (hf : a.function = b.function) (blocks : List Block) : a.settle blocks = b.settle blocks := by
  have hint : ∀ id, a.int id = b.int id := by
    intro id
    simp [Activation.int, Activation.value, hv]
  induction blocks with
  | nil => simp [Activation.settle, hf]
  | cons block outer ih =>
    obtain ⟨rest, kind⟩ := block
    cases rest with
    | cons inst rest => rfl
    | nil => cases kind <;> simp [Activation.settle, ih, hint]

/-! ## Steps of a machine -/

/-- The budget was not enough. -/
def Outcome.IsExhausted (outcome : Outcome) : Prop :=
  ∃ maxSteps function, outcome = .failed (.budgetExhausted maxSteps function)

namespace State

variable {m : Lir.Module} {s s' s'' : State} {k k' : Nat}

/-- A budget of less than so many steps is not enough. -/
def Exhausts (m : Lir.Module) (k : Nat) (s : State) : Prop :=
  ∀ maxSteps left steps, left < k → (run m maxSteps left s steps).outcome.IsExhausted

/-- However far a budget goes, the first so many steps lead from one state to the other. -/
structure Leads (m : Lir.Module) (k : Nat) (s s' : State) : Prop where
  run_eq : ∀ maxSteps left steps, k ≤ left →
    run m maxSteps left s steps = run m maxSteps (left - k) s' (steps + k)
  exhausted : s.Exhausts m k

/-- The call ends with a fault after so many steps. -/
structure Fails (m : Lir.Module) (k : Nat) (s : State) (cause : Fault) : Prop where
  outcome_eq : ∀ maxSteps left steps, k ≤ left →
    (run m maxSteps left s steps).outcome = .failed cause
  exhausted : s.Exhausts m k

theorem exhausts_zero (s : State) : s.Exhausts m 0 := fun _ _ _ h => absurd h (Nat.not_lt_zero _)

theorem Leads.refl (s : State) : s.Leads m 0 s := ⟨fun _ _ _ _ => rfl, exhausts_zero s⟩

theorem Leads.exhausts (h : s.Leads m k s') (h' : s'.Exhausts m k') : s.Exhausts m (k + k') := by
  intro maxSteps left steps hlt
  by_cases hk : k ≤ left
  · rw [h.run_eq _ _ _ hk]
    exact h' _ _ _ (by omega)
  · exact h.exhausted _ _ _ (by omega)

theorem Leads.trans (h : s.Leads m k s') (h' : s'.Leads m k' s'') : s.Leads m (k + k') s'' := by
  refine ⟨?_, h.exhausts h'.exhausted⟩
  intro maxSteps left steps hle
  rw [h.run_eq _ _ _ (by omega), h'.run_eq _ _ _ (by omega), Nat.sub_add_eq, Nat.add_assoc]

theorem Leads.fails {cause : Fault} (h : s.Leads m k s') (h' : s'.Fails m k' cause) :
    s.Fails m (k + k') cause := by
  refine ⟨?_, h.exhausts h'.exhausted⟩
  intro maxSteps left steps hle
  rw [h.run_eq _ _ _ (by omega)]
  exact h'.outcome_eq _ _ _ (by omega)

theorem Exhausts.mono (h : s.Exhausts m k') (hle : k ≤ k') : s.Exhausts m k := by
  intro maxSteps left steps hlt
  exact h _ _ _ (by omega)

theorem run_zero {inst : Inst} {blocks : List Block} {maxSteps steps : Nat}
    (h : s.active.settle s.active.blocks = .next inst blocks) :
    (run m maxSteps 0 s steps).outcome.IsExhausted := by
  unfold run
  simp only [h]
  exact ⟨_, _, rfl⟩

theorem run_succ {inst : Inst} {blocks : List Block} {maxSteps left steps : Nat}
    (h : s.active.settle s.active.blocks = .next inst blocks) :
    run m maxSteps (left + 1) s steps =
      match (s.take blocks).step m inst with
      | .stopped outcome store => ⟨outcome, store, steps + 1⟩
      | .running s => run m maxSteps left s (steps + 1) := by
  conv => lhs; unfold run
  cases hstep : (s.take blocks).step m inst <;> simp only [h, hstep]

theorem Step.leads (h : s.Step m s') : s.Leads m 1 s' := by
  obtain ⟨inst, blocks, hsettle, hstep⟩ := h
  constructor
  · intro maxSteps left steps hle
    obtain ⟨left, rfl⟩ : ∃ n, left = n + 1 := ⟨left - 1, by omega⟩
    rw [run_succ hsettle, hstep]
    rfl
  · intro maxSteps left steps hlt
    obtain rfl : left = 0 := by omega
    exact run_zero hsettle

variable {a : Activation} {c : CallStack} {st : Store} {inst : Inst} {cont cont' : Cont}

/-- An instruction leads on to what it does. -/
theorem leads_of_moves {e : Effect} (hd : (a.resume cont).Does m st inst e)
    (hm : State.Moves m ⟨a.resume cont, c, st⟩ e s') :
    State.Leads m 1 ⟨a.resume (cont.before [inst]), c, st⟩ s' := by
  refine Step.leads ⟨inst, cont.blocks, rfl, ?_⟩
  change State.step m ⟨a.resume cont, c, st⟩ inst = _
  unfold State.step
  rw [hd.effect_eq]
  exact hm.apply_eq

/-- An instruction that defines a value leads to the value being there. -/
theorem leads_of_define {dest : ValueId} {v : Value}
    (hd : (a.resume cont).Does m st inst (.define dest v)) :
    State.Leads m 1 ⟨a.resume (cont.before [inst]), c, st⟩ ⟨(a.define dest v).resume cont, c, st⟩ :=
  leads_of_moves hd .define

/-- An instruction that writes a local leads to the local being set. -/
theorem leads_of_assign {x : Lir.LocalId} {v : Value}
    (hd : (a.resume cont).Does m st inst (.assign x v)) :
    State.Leads m 1 ⟨a.resume (cont.before [inst]), c, st⟩ ⟨(a.assign x v).resume cont, c, st⟩ :=
  leads_of_moves hd .assign

/-- Without a step left, an instruction is not executed. -/
theorem exhausts_before : State.Exhausts m 1 ⟨a.resume (cont.before [inst]), c, st⟩ := by
  have hsettle : (a.resume (cont.before [inst])).settle (a.resume (cont.before [inst])).blocks =
    .next inst cont.blocks := rfl
  intro maxSteps left steps hlt
  obtain rfl : left = 0 := by omega
  exact run_zero hsettle

/-- The call ends with an instruction that ends it. -/
theorem run_of_stopped {outcome : Outcome} {store : Store}
    (h : State.step m ⟨a.resume cont, c, st⟩ inst = .stopped outcome store) {maxSteps left steps : Nat}
    (hle : 1 ≤ left) : run m maxSteps left ⟨a.resume (cont.before [inst]), c, st⟩ steps =
      ⟨outcome, store, steps + 1⟩ := by
  have hsettle : (a.resume (cont.before [inst])).settle (a.resume (cont.before [inst])).blocks =
    .next inst cont.blocks := rfl
  have hstep : (State.take ⟨a.resume (cont.before [inst]), c, st⟩ cont.blocks).step m inst =
    .stopped outcome store := h
  obtain ⟨left, rfl⟩ : ∃ n, left = n + 1 := ⟨left - 1, by omega⟩
  rw [run_succ hsettle, hstep]

/-- An instruction that cannot be executed ends the call. -/
theorem fails_of_effect {cause : Fault} (h : (a.resume cont).effect m st inst = .error cause) :
    State.Fails m 1 ⟨a.resume (cont.before [inst]), c, st⟩ cause := by
  have hstep : State.step m ⟨a.resume cont, c, st⟩ inst = State.fail ⟨a.resume cont, c, st⟩ cause := by
    simp only [State.step, h]
  refine ⟨fun maxSteps left steps hle => ?_, exhausts_before⟩
  rw [run_of_stopped hstep hle]

/-- Places from which control comes to the same instruction are the same place. -/
theorem leads_of_settle (h : a.settle cont.blocks = a.settle cont'.blocks) :
    State.Leads m 0 ⟨a.resume cont, c, st⟩ ⟨a.resume cont', c, st⟩ := by
  have hsettle : (a.resume cont).settle cont.blocks = (a.resume cont').settle cont'.blocks := by
    rw [Activation.settle_congr (a := a.resume cont) (b := a) rfl rfl,
      Activation.settle_congr (a := a.resume cont') (b := a) rfl rfl, h]
  refine ⟨?_, exhausts_zero _⟩
  intro maxSteps left steps _
  rw [Nat.sub_zero, Nat.add_zero]
  unfold run
  simp only [show (State.mk (a.resume cont) c st).active.settle
    (State.mk (a.resume cont) c st).active.blocks = (a.resume cont').settle cont'.blocks from hsettle]
  rfl

/-- A branch leads into one of its blocks. -/
theorem leads_branch {condition : ValueId} {thenBody elseBody : List Inst} {x : Int64}
    (h : a.value condition = .ok (.int x)) :
    State.Leads m 1 ⟨a.resume (cont.before [.branch condition thenBody elseBody]), c, st⟩
      ⟨a.resume ((cont.inside .straight).before (if x = 0 then elseBody else thenBody)), c, st⟩ := by
  have hopen : a.resume ((cont.inside .straight).before (if x = 0 then elseBody else thenBody)) =
      (a.resume cont).openBlock ⟨if x = 0 then elseBody else thenBody, .straight⟩ := by
    simp [Activation.resume, Activation.openBlock, Cont.before, Cont.inside, Cont.blocks]
  rw [hopen]
  exact leads_of_moves (.branch h) .enter

/-- A loop leads into its header. -/
theorem leads_loop {header body : List Inst} {condition : ValueId} :
    State.Leads m 1 ⟨a.resume (cont.before [.loop header condition body]), c, st⟩
      ⟨a.resume ((cont.inside (.header ⟨header, condition, body⟩)).before header), c, st⟩ := by
  have hopen : a.resume ((cont.inside (.header ⟨header, condition, body⟩)).before header) =
      (a.resume cont).openBlock ⟨header, .header ⟨header, condition, body⟩⟩ := by
    simp [Activation.resume, Activation.openBlock, Cont.before, Cont.inside, Cont.blocks]
  rw [hopen]
  exact leads_of_moves .loop .enter

/-- The end of a block that is entered once. -/
theorem leads_straight : State.Leads m 0 ⟨a.resume (cont.inside .straight), c, st⟩ ⟨a.resume cont, c, st⟩ :=
  leads_of_settle rfl

variable {loop : LoopCode}

/-- The end of a loop's header, where the condition does not hold. -/
theorem leads_leave (h : a.value loop.condition = .ok (.int 0)) :
    State.Leads m 0 ⟨a.resume (cont.inside (.header loop)), c, st⟩ ⟨a.resume cont, c, st⟩ := by
  refine leads_of_settle ?_
  simp [Cont.inside, Cont.blocks, Activation.settle, Activation.int_eq_ok.2 h]

/-- The end of a loop's header, where the condition holds. -/
theorem leads_round {x : Int64} (h : a.value loop.condition = .ok (.int x)) (hx : x ≠ 0)
    (hheader : loop.header ≠ []) :
    State.Leads m 0 ⟨a.resume (cont.inside (.header loop)), c, st⟩
      ⟨a.resume ((cont.inside (.body loop)).before loop.body), c, st⟩ := by
  refine leads_of_settle ?_
  obtain ⟨header, condition, body⟩ := loop
  obtain ⟨inst, rest, rfl⟩ := List.exists_cons_of_ne_nil hheader
  cases body <;> simp [Cont.inside, Cont.before, Cont.blocks, Activation.settle,
    Activation.int_eq_ok.2 h, hx, LoopCode.round]

/-- The end of a loop's body. -/
theorem leads_again (hheader : loop.header ≠ []) :
    State.Leads m 0 ⟨a.resume (cont.inside (.body loop)), c, st⟩
      ⟨a.resume ((cont.inside (.header loop)).before loop.header), c, st⟩ := by
  refine leads_of_settle ?_
  obtain ⟨header, condition, body⟩ := loop
  obtain ⟨inst, rest, rfl⟩ := List.exists_cons_of_ne_nil hheader
  simp [Cont.inside, Cont.before, Cont.blocks, Activation.settle]

end State

end Machine

/-! ## Following an evaluation -/

open Machine

section

variable (m : Lir.Module) (Causes : Stop → Fault → Prop)

/-- From the state on, the machine does what the evaluation says, in `least` steps or more. Where the
evaluation does not finish, the machine makes `need` steps or more. -/
def Follows {α : Type} (least need : Nat) (s : State) (x : Eval α) (memory : Memory)
    (Fits : α → Memory → State → Prop) : Prop :=
  match x memory with
  | .ok (a, memory') => ∃ k s', least ≤ k ∧ s.Leads m k s' ∧ Fits a memory' s'
  | .error .unfinished => s.Exhausts m need
  | .error stop => ∃ k cause, Causes stop cause ∧ s.Fails m k cause

end

namespace Follows

variable {m : Lir.Module} {Causes : Stop → Fault → Prop} {α β : Type} {least least' need need' k : Nat}
  {s s' : State} {x : Eval α} {f : α → Eval β} {memory memory' : Memory}
  {Fits : α → Memory → State → Prop} {Fits' : β → Memory → State → Prop}

theorem of_ok {a : α} (hx : x memory = .ok (a, memory')) (h : Fits a memory' s) :
    Follows m Causes 0 need s x memory Fits := by
  unfold Follows
  rw [hx]
  exact ⟨0, s, Nat.le_refl 0, .refl s, h⟩

theorem of_fails {stop : Stop} {cause : Fault} (hx : x memory = .error stop)
    (hc : Causes stop cause) (hn : stop ≠ .unfinished) (h : s.Fails m k cause) :
    Follows m Causes least need s x memory Fits := by
  unfold Follows
  rw [hx]
  cases stop <;> first | exact absurd rfl hn | exact ⟨k, cause, hc, h⟩

/-- Steps before. -/
theorem lead (hl : s.Leads m k s') (h : Follows m Causes least need s' x memory Fits) :
    Follows m Causes (k + least) (k + need) s x memory Fits := by
  unfold Follows at h ⊢
  split at h
  · obtain ⟨k', s'', hle, hl', hfits⟩ := h
    exact ⟨k + k', s'', by omega, hl.trans hl', hfits⟩
  · exact hl.exhausts h
  · obtain ⟨k', cause, hc, hf⟩ := h
    exact ⟨k + k', cause, hc, hl.fails hf⟩

theorem mono (h : Follows m Causes least need s x memory Fits) (hl : least' ≤ least)
    (hn : need' ≤ need) : Follows m Causes least' need' s x memory Fits := by
  unfold Follows at h ⊢
  split at h
  · obtain ⟨k, s', hle, hl', hfits⟩ := h
    exact ⟨k, s', by omega, hl', hfits⟩
  · exact h.mono hn
  · exact h

/-- Steps before that are not counted. -/
theorem after (hl : s.Leads m k s') (h : Follows m Causes least need s' x memory Fits) :
    Follows m Causes least need s x memory Fits :=
  (lead hl h).mono (Nat.le_add_left _ _) (Nat.le_add_left _ _)

/-- Steps before that are enough. -/
theorem first (hl : s.Leads m k s') (hk : least ≤ k) (h : Follows m Causes 0 need s' x memory Fits) :
    Follows m Causes least need s x memory Fits :=
  (lead hl h).mono hk (Nat.le_add_left _ _)

/-- One evaluation after another. -/
theorem bind (least' need' : Nat) (hx : Follows m Causes least need s x memory Fits)
    (hf : ∀ a memory' s', Fits a memory' s' → Follows m Causes least' need' s' (f a) memory' Fits')
    (hn : need ≤ least + need') :
    Follows m Causes (least + least') need s (x >>= f) memory Fits' := by
  have hbind : (x >>= f) memory = x memory >>= fun r => f r.1 r.2 := rfl
  cases hr : x memory with
  | ok r =>
    obtain ⟨a, memory'⟩ := r
    have heq : (x >>= f) memory = f a memory' := by
      rw [hbind, hr]
      rfl
    simp only [Follows, hr] at hx
    obtain ⟨k, s', hle, hl, hfits⟩ := hx
    have h := (hf a memory' s' hfits).lead hl
    have h : Follows m Causes (least + least') need s (f a) memory' Fits' :=
      h.mono (by omega) (by omega)
    simpa only [Follows, heq] using h
  | error stop =>
    have heq : (x >>= f) memory = .error stop := by
      rw [hbind, hr]
      rfl
    simp only [Follows, hr] at hx
    simp only [Follows, heq]
    cases stop <;> exact hx

/-- One evaluation after another, of which the second one takes the steps that are counted. -/
theorem andThen (hx : Follows m Causes least need s x memory Fits)
    (hf : ∀ a memory' s', Fits a memory' s' → Follows m Causes least' need s' (f a) memory' Fits') :
    Follows m Causes least' need s (x >>= f) memory Fits' :=
  (bind _ _ hx hf (Nat.le_add_left _ _)).mono (Nat.le_add_left _ _) (Nat.le_refl _)

/-- What the evaluator does without the machine. -/
theorem bind_ok {a : α} (hx : x memory = .ok (a, memory'))
    (h : Follows m Causes least need s (f a) memory' Fits') :
    Follows m Causes least need s (x >>= f) memory Fits' := by
  have heq : (x >>= f) memory = f a memory' := by
    change (x memory >>= fun r => f r.1 r.2) = _
    rw [hx]
    rfl
  simpa only [Follows, heq] using h

theorem bind_fails {stop : Stop} {cause : Fault} (hx : x memory = .error stop)
    (hc : Causes stop cause) (hn : stop ≠ .unfinished) (h : s.Fails m k cause) :
    Follows m Causes least need s (x >>= f) memory Fits' := by
  refine of_fails ?_ hc hn h
  change (x memory >>= fun r => f r.1 r.2) = _
  rw [hx]
  rfl

/-- Steps after. -/
theorem further {Fits' : α → Memory → State → Prop} (h : Follows m Causes least need s x memory Fits)
    (hf : ∀ a memory' s', Fits a memory' s' → ∃ k s'', s'.Leads m k s'' ∧ Fits' a memory' s'') :
    Follows m Causes least need s x memory Fits' := by
  unfold Follows at h ⊢
  split at h
  · obtain ⟨k, s', hle, hl, hfits⟩ := h
    obtain ⟨k', s'', hl', hfits'⟩ := hf _ _ _ hfits
    exact ⟨k + k', s'', Nat.le_add_right_of_le hle, hl.trans hl', hfits'⟩
  · exact h
  · exact h

theorem imp {Fits' : α → Memory → State → Prop} (h : Follows m Causes least need s x memory Fits)
    (hf : ∀ a memory' s', Fits a memory' s' → Fits' a memory' s') :
    Follows m Causes least need s x memory Fits' :=
  h.further fun a memory' s' hfits => ⟨0, s', .refl s', hf a memory' s' hfits⟩

end Follows

end StaticChain

import StaticChain.Proofs.Typing
import StaticChain.Proofs.Wasm.Popping

/-!
# The stack pointer after a call

A call leaves the stack pointer as it found it. The frame of a running call either still has the pointer or
keeps it in a local (`Manner.Kept`), and so do the frames of the calls that wait for it (`Within`); the calls
that it makes give the pointer back as it was when they were made. This holds at the start of a call, and
every step preserves it (`Upheld.step`). When the call is over, it has just set the pointer back, or has never
moved it; and it is over with a return, as its code does not run out (`call_pops_frames`).
-/

namespace StaticChain.Wasm

/-! ## What instructions change -/

theorem Instance.globals_grow (host : Host) (inst : Instance) (delta : BitVec 32) :
    (inst.grow host delta).2.globals = inst.globals := by
  unfold Instance.grow
  dsimp only
  split
  · split <;> rfl
  · rfl

namespace Data

variable {d d' : Data} {host : Host} {op : Op} {x : Nat}

theorem exec_localSet_eq_done (h : d.exec host (.localSet x) = .done d') :
    ∃ v stack, d.stack = v :: stack ∧ x < d.locals.length ∧ d' = ⟨d.locals.set x v, stack, d.inst⟩ := by
  change d.localSet x d.stack = .done d' at h
  unfold localSet at h
  split at h
  · split at h
    · cases h
      exact ⟨_, _, ‹_›, ‹_›, rfl⟩
    · cases h
  · cases h

theorem exec_globalSet_eq_done (h : d.exec host (.globalSet x) = .done d') :
    ∃ v stack, d.stack = v :: stack ∧ x < d.inst.globals.length ∧
      d' = ⟨d.locals, stack, { d.inst with globals := d.inst.globals.set x v }⟩ := by
  change d.globalSet x d.stack = .done d' at h
  unfold globalSet at h
  split at h
  · split at h
    · cases h
      exact ⟨_, _, ‹_›, ‹_›, rfl⟩
    · cases h
  · cases h

theorem pushSome_eq_done {value : Option Val} (h : d.pushSome value = .done d') :
    ∃ v, value = some v ∧ d' = ⟨d.locals, v :: d.stack, d.inst⟩ := by
  cases value with
  | none => cases h
  | some v =>
    cases h
    exact ⟨v, rfl, rfl⟩

theorem grow_shared {stack : List Val} (h : d.grow host stack = .done d') :
    d'.locals = d.locals ∧ d'.inst.globals = d.inst.globals := by
  unfold grow at h
  split at h
  · cases h
    exact ⟨rfl, Instance.globals_grow ..⟩
  · cases h

/-- Locals and globals are changed only by the instructions that set one. -/
theorem exec_shared (h : d.exec host op = .done d') (hlocal : ∀ x, op ≠ .localSet x)
    (hglobal : ∀ g, op ≠ .globalSet g) : d'.locals = d.locals ∧ d'.inst.globals = d.inst.globals := by
  -- The result of an instruction that works on operands and memory only.
  have hsame : ∀ {stack memory}, Done.done ⟨d.locals, stack, { d.inst with memory }⟩ = .done d' →
      d'.locals = d.locals ∧ d'.inst.globals = d.inst.globals := by
    intro stack memory h
    cases h
    exact ⟨rfl, rfl⟩
  cases op with
  | localSet x => exact absurd rfl (hlocal x)
  | globalSet g => exact absurd rfl (hglobal g)
  | localGet x =>
    obtain ⟨v, -, rfl⟩ := pushSome_eq_done h
    exact ⟨rfl, rfl⟩
  | globalGet x =>
    obtain ⟨v, -, rfl⟩ := pushSome_eq_done h
    exact ⟨rfl, rfl⟩
  | nop => exact hsame h
  | const32 value => exact hsame h
  | const64 value => exact hsame h
  | memorySize memory =>
    cases memory with
    | zero => exact hsame h
    | succ memory => cases h
  | memoryGrow memory =>
    cases memory with
    | zero => exact grow_shared h
    | succ memory => cases h
  | drop =>
    change d.drop d.stack = _ at h
    unfold drop at h
    repeat' split at h
    all_goals first | exact hsame h | cases h
  | extend =>
    change d.extend d.stack = _ at h
    unfold extend at h
    repeat' split at h
    all_goals first | exact hsame h | cases h
  | eqz width =>
    change d.eqz width d.stack = _ at h
    unfold eqz at h
    repeat' split at h
    all_goals first | exact hsame h | cases h
  | rel width op =>
    change d.rel op width d.stack = _ at h
    unfold rel at h
    repeat' split at h
    all_goals first | exact hsame h | cases h
  | bin width op =>
    change d.bin op width d.stack = _ at h
    unfold bin at h
    repeat' split at h
    all_goals first | exact hsame h | cases h
  | load width arg =>
    change d.load arg.offset width d.stack = _ at h
    unfold load at h
    repeat' split at h
    all_goals first | exact hsame h | cases h
  | store width arg =>
    change d.store arg.offset width d.stack = _ at h
    unfold store at h
    repeat' split at h
    all_goals first | exact hsame h | cases h
  | _ => cases h

/-- A local that is not set keeps its value. -/
theorem exec_local (h : d.exec host op = .done d') (hx : op ≠ .localSet x) : d'.locals[x]? = d.locals[x]? := by
  cases op with
  | localSet y =>
    obtain ⟨v, stack, -, -, rfl⟩ := exec_localSet_eq_done h
    exact List.getElem?_set_ne fun heq => hx (congrArg _ heq)
  | globalSet g =>
    obtain ⟨v, stack, -, -, rfl⟩ := exec_globalSet_eq_done h
    rfl
  | _ => rw [(exec_shared h nofun nofun).1]

/-- A global that is not set keeps its value. -/
theorem exec_global (h : d.exec host op = .done d') (hx : op ≠ .globalSet x) :
    d'.inst.globals[x]? = d.inst.globals[x]? := by
  cases op with
  | localSet y =>
    obtain ⟨v, stack, -, -, rfl⟩ := exec_localSet_eq_done h
    rfl
  | globalSet g =>
    obtain ⟨v, stack, -, -, rfl⟩ := exec_globalSet_eq_done h
    exact List.getElem?_set_ne fun heq => hx (congrArg _ heq)
  | _ => rw [(exec_shared h nofun nofun).2]

end Data

/-! ## Frames -/

/-- The global that holds the stack pointer. -/
def Instance.stackPointer? (inst : Instance) : Option Val := inst.globals[1]?

/-- The stack pointer of the start is kept: in the local that is meant for it, or else it is the one of now. -/
def Manner.Kept (μ : Manner) (start : Option Val) (locals : List Val) (now : Option Val) : Prop :=
  match μ.saved? with
  | some x => locals[x]? = start
  | none => now = start

/-- Branches go on with code that sets the stack pointer back. -/
inductive LabelsPop (μ : Manner) : List Label → Prop
  | nil : LabelsPop μ []
  | cons {label : Label} {labels : List Label} : Pops μ labels.length (label.target ++ label.after) →
      Pops μ labels.length label.after → LabelsPop μ labels → LabelsPop μ (label :: labels)

/-- A frame in the middle of its code. -/
structure Running (μ : Manner) (start : Option Val) (frame : Frame) (now : Option Val) : Prop where
  kept : μ.Kept start frame.locals now
  code : Pops μ frame.labels.length frame.code
  labels : LabelsPop μ frame.labels

/-- The frame of a running call: it is about to keep the stack pointer, is in the middle of its code, or sets
the pointer back and returns. -/
inductive Upkeep (μ : Manner) (start : Option Val) : Frame → Option Val → Prop
  | entered {x arity : Nat} {locals stack : List Val} {body : List Instr} {now : Option Val} :
      μ.saved? = some x → Pops μ 0 body → now = start →
      Upkeep μ start ⟨locals, stack, .plain (.globalGet 1) :: .plain (.localSet x) :: body, [], arity⟩ now
  | saving {x arity : Nat} {v : Val} {locals stack : List Val} {body : List Instr} {now : Option Val} :
      μ.saved? = some x → Pops μ 0 body → start = some v →
      Upkeep μ start ⟨locals, v :: stack, .plain (.localSet x) :: body, [], arity⟩ now
  | running {frame : Frame} {now : Option Val} : Running μ start frame now → Upkeep μ start frame now
  | restoring {arity : Nat} {v : Val} {locals stack : List Val} {code : List Instr} {labels : List Label}
      {now : Option Val} : start = some v → Leaving code →
      Upkeep μ start ⟨locals, v :: stack, .plain (.globalSet 1) :: code, labels, arity⟩ now
  | leaving {frame : Frame} {now : Option Val} : now = start → Leaving frame.code → Upkeep μ start frame now

/-- A call may be over now: the stack pointer is as it was, and the code returns or has run out. -/
structure Popped (μ : Manner) (start : Option Val) (s : State) : Prop where
  pointer : s.inst.stackPointer? = start
  returns : μ.runsOut = true ∨ ∃ rest, s.frame.code = .plain .ret :: rest

/-- What a step does to a running call: it stays in the frame, calls a function or is over. -/
inductive Follows (w : Module) (μ : Manner) (start : Option Val) (s : State) : Next → Prop
  | stuck : Follows w μ start s .stuck
  | trapped {why : Trap} {s' : State} : Follows w μ start s (.trapped why s')
  | stays {frame : Frame} {inst : Instance} : Upkeep μ start frame inst.stackPointer? →
      Follows w μ start s (.running ⟨frame, s.callers, inst⟩)
  | calls {index : Nat} {callee : Module.Callee} {args : List Val} {caller : Frame} :
      w.callee? index = some callee → Running μ start caller s.inst.stackPointer? →
      Follows w μ start s (.running ⟨callee.frame args, caller :: s.callers, s.inst⟩)
  | resumes {caller : Frame} {callers : List Frame} {stack : List Val} : Popped μ start s →
      s.callers = caller :: callers → Follows w μ start s (.running ⟨{ caller with stack }, callers, s.inst⟩)
  | returns {results : List Val} : Popped μ start s → s.callers = [] →
      Follows w μ start s (.returned results s.inst)

section

variable {w : Module} {host : Host} {μ : Manner} {start : Option Val} {s : State}

/-- An instruction without control keeps the stack pointer, if the code may have it. -/
theorem Manner.Kept.exec {d d' : Data} {op : Op} {depth : Nat} (h : μ.Kept start d.locals d.inst.stackPointer?)
    (hop : μ.Allows depth op) (hd : d.exec host op = .done d') : μ.Kept start d'.locals d'.inst.stackPointer? := by
  unfold Kept at h ⊢
  split
  · rename_i x hsaved
    rw [hsaved] at h
    refine (Data.exec_local hd ?_).trans h
    rintro rfl
    exact hop hsaved
  · rename_i hsaved
    rw [hsaved] at h
    refine (Data.exec_global hd ?_).trans h
    rintro rfl
    simpa [hsaved] using hop rfl

/-- Code without control is followed where its result is known. -/
theorem Follows.after {rest : List Instr} {done : Done}
    (h : ∀ d, done = .done d → Upkeep μ start { s.frame with locals := d.locals, stack := d.stack, code := rest }
      d.inst.stackPointer?) : Follows w μ start s (s.after rest done) := by
  cases done with
  | done d => exact .stays (h d rfl)
  | trap why => exact .trapped
  | stuck => exact .stuck

/-- The call is over. -/
theorem Popped.leave (h : Popped μ start s) (stack : List Val) : Follows w μ start s (s.leave stack) := by
  unfold State.leave
  split
  · dsimp only
    split
    · exact .returns h ‹_›
    · exact .resumes h ‹_›
  · exact .stuck

/-- The frame goes on with other code. -/
theorem Running.goOn (h : Running μ start s.frame s.inst.stackPointer?) {code : List Instr} {stack : List Val}
    {labels : List Label} (hcode : Pops μ labels.length code) (hlabels : LabelsPop μ labels) :
    Follows w μ start s (s.goOn code stack labels) :=
  .stays (.running ⟨h.kept, hcode, hlabels⟩)

theorem LabelsPop.of_drop {labels outer : List Label} (h : LabelsPop μ labels) {label : Nat} {found : Label}
    (hd : labels.drop label = found :: outer) :
    Pops μ outer.length (found.target ++ found.after) ∧ LabelsPop μ outer := by
  induction h generalizing label with
  | nil => simp at hd
  | cons htarget _ hlabels ih =>
    cases label with
    | zero =>
      cases hd
      exact ⟨htarget, hlabels⟩
    | succ label => exact ih hd

theorem Running.branch (h : Running μ start s.frame s.inst.stackPointer?) {label : Nat}
    (hlt : label < s.frame.labels.length) (stack : List Val) : Follows w μ start s (s.branch label stack) := by
  unfold State.branch
  split
  · rename_i found outer hdrop
    obtain ⟨hcode, hlabels⟩ := h.labels.of_drop hdrop
    split
    · exact h.goOn hcode hlabels
    · exact .stuck
  · rename_i hdrop
    exact absurd hlt (Nat.not_lt.2 (List.drop_eq_nil_iff.1 hdrop))

theorem Running.openBlock (h : Running μ start s.frame s.inst.stackPointer?) {params arity : Nat}
    {target body rest : List Instr} {stack : List Val} (hbody : Pops μ (s.frame.labels.length + 1) body)
    (htarget : Pops μ s.frame.labels.length (target ++ rest)) (hrest : Pops μ s.frame.labels.length rest) :
    Follows w μ start s (s.openBlock params arity target body rest stack) := by
  unfold State.openBlock
  split
  · exact h.goOn hbody (.cons htarget hrest h.labels)
  · exact .stuck

theorem Running.enterBlock (h : Running μ start s.frame s.inst.stackPointer?) {ty : BlockType}
    {body rest : List Instr} {stack : List Val} (hbody : Pops μ (s.frame.labels.length + 1) body)
    (hrest : Pops μ s.frame.labels.length rest) : Follows w μ start s (s.enterBlock w ty body rest stack) := by
  unfold State.enterBlock
  split
  · exact h.openBlock hbody hrest hrest
  · exact .stuck

theorem Running.enterLoop (h : Running μ start s.frame s.inst.stackPointer?) {ty : BlockType}
    {body rest : List Instr} {stack : List Val} (hbody : Pops μ (s.frame.labels.length + 1) body)
    (hrest : Pops μ s.frame.labels.length rest) : Follows w μ start s (s.enterLoop w ty body rest stack) := by
  unfold State.enterLoop
  split
  · exact h.openBlock hbody (.loop hbody hrest) hrest
  · exact .stuck

/-- An instruction that code may have inside of its blocks. -/
theorem Running.plain (h : Running μ start s.frame s.inst.stackPointer?) {op : Op} {rest : List Instr}
    (hop : μ.Allows s.frame.labels.length op) (hrest : Pops μ s.frame.labels.length rest) :
    Follows w μ start s (s.plain host w rest op) := by
  have hafter : Follows w μ start s
      (s.after rest (Data.exec ⟨s.frame.locals, s.frame.stack, s.inst⟩ host op)) :=
    .after fun d hd => .running ⟨Manner.Kept.exec h.kept hop hd, hrest, h.labels⟩
  cases op with
  | unreachable => exact .trapped
  | ret => exact hop.elim
  | br label => exact h.branch hop _
  | brIf label =>
    simp only [State.plain]
    split
    · split
      · exact h.goOn hrest h.labels
      · exact h.branch hop _
    · exact .stuck
  | call index =>
    simp only [State.plain]
    split
    · rename_i callee hcallee
      simp only [State.call]
      split
      · exact .calls hcallee ⟨h.kept, hrest, h.labels⟩
      · exact .stuck
    · exact .stuck
  | _ => exact hafter

/-- Code that is about to return, with the stack pointer as it was. -/
theorem Leaving.follows (h : Leaving s.frame.code) (hpointer : s.inst.stackPointer? = start) :
    Follows w μ start s (s.step host w) := by
  obtain ⟨⟨locals, stack, code, labels, arity⟩, callers, inst⟩ := s
  cases h with
  | ret => exact Popped.leave ⟨hpointer, .inr ⟨_, rfl⟩⟩ _
  | get h =>
    refine .after fun d hd => ?_
    obtain ⟨v, -, rfl⟩ := Data.pushSome_eq_done hd
    exact .leaving hpointer h

/-- What a step does to a frame in the middle of its code. -/
theorem Running.follows (h : Running μ start s.frame s.inst.stackPointer?) :
    Follows w μ start s (s.step host w) := by
  obtain ⟨⟨locals, stack, code, labels, arity⟩, callers, inst⟩ := s
  -- The cases are those of the code; only two of them are about the stack pointer.
  have hcode := h.code
  simp only at hcode
  cases hcode with
  | done hend =>
    cases labels with
    | nil =>
      obtain ⟨hruns, hsaved⟩ := hend rfl
      have hkept := h.kept
      simp only [Manner.Kept, hsaved] at hkept
      exact Popped.leave ⟨hkept, .inl hruns⟩ _
    | cons label labels =>
      cases h.labels with | cons _ hafter hlabels =>
      exact h.goOn hafter hlabels
  | plain hop hrest => exact h.plain hop hrest
  | block hbody hrest => exact h.enterBlock hbody hrest
  | loop hbody hrest => exact h.enterLoop hbody hrest
  | @cond _ _ thenBody elseBody rest hthen helse hrest =>
    simp only [State.step]
    split
    · refine h.enterBlock ?_ hrest
      split
      · exact helse
      · exact hthen
    · exact .stuck
  | trap => exact .trapped
  | leave hsaved hleaving =>
    have hkept := h.kept
    simp only [Manner.Kept, hsaved] at hkept
    exact hleaving.follows hkept
  | @restore _ x rest hsaved hleaving =>
    have hkept := h.kept
    simp only [Manner.Kept, hsaved] at hkept
    refine .after fun d hd => ?_
    obtain ⟨v, hv, rfl⟩ := Data.pushSome_eq_done hd
    exact .restoring (hkept.symm.trans hv) hleaving

/-- What a step does to a running call. -/
theorem Upkeep.follows (h : Upkeep μ start s.frame s.inst.stackPointer?) :
    Follows w μ start s (s.step host w) := by
  obtain ⟨⟨locals, stack, code, labels, arity⟩, callers, inst⟩ := s
  cases h with
  | entered hsaved hbody hnow =>
    refine .after fun d hd => ?_
    obtain ⟨v, hv, rfl⟩ := Data.pushSome_eq_done hd
    exact .saving hsaved hbody (hnow.symm.trans hv)
  | saving hsaved hbody hstart =>
    refine .after fun d hd => ?_
    obtain ⟨v, stack', heq, hlt, rfl⟩ := Data.exec_localSet_eq_done hd
    cases heq
    refine .running ⟨?_, hbody, .nil⟩
    simp only [Manner.Kept, hsaved, hstart]
    exact List.getElem?_set_self hlt
  | running h => exact h.follows
  | restoring hstart hleaving =>
    refine .after fun d hd => ?_
    obtain ⟨v, stack', heq, hlt, rfl⟩ := Data.exec_globalSet_eq_done hd
    cases heq
    exact .leaving ((List.getElem?_set_self hlt).trans hstart.symm) hleaving
  | leaving hnow h => exact h.follows hnow

/-- Code that does not run out is not at its end. -/
theorem Upkeep.not_ends {frame : Frame} {now : Option Val} (h : Upkeep μ start frame now)
    (hruns : μ.runsOut = false) : ¬(frame.code = [] ∧ frame.labels = []) := by
  rintro ⟨hcode, hlabels⟩
  cases h with
  | running h =>
    have hpops := h.code
    rw [hcode, hlabels] at hpops
    cases hpops with
    | done hend => simp [(hend rfl).1] at hruns
    | leave _ hleaving => cases hleaving
  | leaving _ h =>
    rw [hcode] at h
    cases h
  | _ => cases hcode

end

/-! ## Calls -/

/-- The calls that wait around a call: those of the functions that it was made by, up to an outermost one. -/
inductive Within (μ₀ : Manner) (start₀ : Option Val) (outer : List Frame) :
    Manner → Option Val → List Frame → Prop
  | own : Within μ₀ start₀ outer μ₀ start₀ outer
  | inner {μ μ' : Manner} {start now : Option Val} {caller : Frame} {callers : List Frame} :
      Running μ start caller now → Within μ₀ start₀ outer μ start callers →
      Within μ₀ start₀ outer μ' now (caller :: callers)

/-- What holds of all states of a call. -/
def Upheld (μ₀ : Manner) (start₀ : Option Val) (outer : List Frame) (s : State) : Prop :=
  ∃ μ start, Upkeep μ start s.frame s.inst.stackPointer? ∧ Within μ₀ start₀ outer μ start s.callers

/-- The functions of a module treat the stack pointer in some manner. -/
def Module.Mannered (w : Module) : Prop :=
  ∀ index callee, w.callee? index = some callee →
    ∃ μ, ∀ args now, Upkeep μ now (callee.frame args) now

section

variable {w : Module} {host : Host} {μ : Manner} {start : Option Val} {outer : List Frame} {s : State}

/-- A step within a call, or the last one. -/
theorem Upheld.step (hw : w.Mannered) (h : Upheld μ start outer s) {s' : State}
    (hs : s.step host w = .running s') :
    Upheld μ start outer s' ∨ Popped μ start s ∧ s'.callers.length < outer.length ∧ s'.inst = s.inst := by
  obtain ⟨μ', start', hupkeep, hwithin⟩ := h
  have hfollows : Follows w μ' start' s (s.step host w) := hupkeep.follows
  rw [hs] at hfollows
  cases hfollows with
  | stays hstays => exact .inl ⟨μ', start', hstays, hwithin⟩
  | calls hcallee hcaller =>
    obtain ⟨μ'', hentered⟩ := hw _ _ hcallee
    exact .inl ⟨μ'', _, hentered _ _, .inner hcaller hwithin⟩
  | resumes hpopped hcallers =>
    rw [hcallers] at hwithin
    cases hwithin with
    | own => exact .inr ⟨hpopped, Nat.lt_succ_self _, rfl⟩
    | inner hcaller hwithin =>
      refine .inl ⟨_, _, .running ⟨?_, hcaller.code, hcaller.labels⟩, hwithin⟩
      exact hpopped.pointer ▸ hcaller.kept

/-- The last step of an outermost call. -/
theorem Upheld.last (h : Upheld μ start outer s) {results : List Val} {inst : Instance}
    (hs : s.step host w = .returned results inst) : Popped μ start s ∧ inst = s.inst := by
  obtain ⟨μ', start', hupkeep, hwithin⟩ := h
  have hfollows : Follows w μ' start' s (s.step host w) := hupkeep.follows
  rw [hs] at hfollows
  cases hfollows with
  | returns hpopped hcallers =>
    rw [hcallers] at hwithin
    cases hwithin
    exact ⟨hpopped, rfl⟩

/-- The frames that wait are those that waited at the start, or more. -/
theorem Within.eq_or_lt {μ' : Manner} {start' : Option Val} {callers : List Frame}
    (h : Within μ start outer μ' start' callers) : μ' = μ ∧ callers = outer ∨ outer.length < callers.length := by
  induction h with
  | own => exact .inl ⟨rfl, rfl⟩
  | inner _ _ ih =>
    right
    rcases ih with ⟨-, rfl⟩ | hlt
    · exact Nat.lt_succ_self _
    · exact Nat.lt_succ_of_lt hlt

end

/-- The states of the call that starts in a state, those of the calls that it makes among them. -/
inductive During (host : Host) (w : Module) (start : State) : State → Prop
  | start : During host w start start
  | step {s s' : State} : During host w start s → s.step host w = .running s' →
      start.callers.length ≤ s'.callers.length → During host w start s'

/-- The call that starts in a state returns with the step from a later one, and this is what it leaves of the
data that calls share. -/
inductive Returns (host : Host) (w : Module) (start s : State) : Instance → Prop
  | caller {s' : State} : During host w start s → s.step host w = .running s' →
      s'.callers.length < start.callers.length → Returns host w start s s'.inst
  | outermost {results : List Val} {inst : Instance} : During host w start s →
      s.step host w = .returned results inst → Returns host w start s inst

section

variable {w : Module} {host : Host} {start : State}

/-- A run that ends with results returns from the call that it starts with. -/
theorem During.exists_returns {s : State} (h : During host w start s) (hc : start.callers = []) {steps : Nat}
    {results : List Val} {inst : Instance} (hrun : s.run host w steps = .returned results inst) :
    ∃ s', Returns host w start s' inst := by
  induction steps generalizing s with
  | zero => cases hrun
  | succ steps ih =>
    rw [State.run] at hrun
    cases hstep : s.step host w with
    | running s' =>
      rw [hstep] at hrun
      exact ih (h.step hstep (by simp [hc])) hrun
    | returned results' inst' =>
      rw [hstep] at hrun
      cases hrun
      exact ⟨s, .outermost h hstep⟩
    | trapped why s' =>
      rw [hstep] at hrun
      cases hrun
    | stuck =>
      rw [hstep] at hrun
      cases hrun

variable {μ : Manner}

/-- What holds at the start of a call holds of all its states. -/
theorem During.upheld (hw : w.Mannered) (h : Upkeep μ start.inst.stackPointer? start.frame start.inst.stackPointer?)
    {s : State} (hs : During host w start s) : Upheld μ start.inst.stackPointer? start.callers s := by
  induction hs with
  | start => exact ⟨μ, _, h, .own⟩
  | @step s s' _ hstep hle ih =>
    rcases ih.step hw hstep with h | ⟨-, hlt, -⟩
    · exact h
    · exact absurd hlt (Nat.not_lt.2 hle)

/-- A call that returns has the stack pointer as it was at its start. -/
theorem Returns.popped (hw : w.Mannered)
    (h : Upkeep μ start.inst.stackPointer? start.frame start.inst.stackPointer?) {s : State} {inst : Instance}
    (hs : Returns host w start s inst) : Popped μ start.inst.stackPointer? s ∧ inst = s.inst := by
  cases hs with
  | caller hduring hstep hlt =>
    rcases (hduring.upheld hw h).step hw hstep with ⟨_, _, -, hwithin⟩ | ⟨hpopped, -, hinst⟩
    · rcases hwithin.eq_or_lt with ⟨-, hcallers⟩ | hgt
      · rw [hcallers] at hlt
        exact absurd hlt (Nat.lt_irrefl _)
      · exact absurd hlt (Nat.lt_asymm hgt)
    · exact ⟨hpopped, hinst⟩
  | outermost hduring hstep => exact (hduring.upheld hw h).last hstep

/-- A call whose code does not run out is not at the end of its code. -/
theorem During.not_ends (hw : w.Mannered) (hruns : μ.runsOut = false)
    (h : Upkeep μ start.inst.stackPointer? start.frame start.inst.stackPointer?) {s : State}
    (hs : During host w start s) (hcallers : s.callers = start.callers) :
    ¬(s.frame.code = [] ∧ s.frame.labels = []) := by
  obtain ⟨μ', start', hupkeep, hwithin⟩ := hs.upheld hw h
  rcases hwithin.eq_or_lt with ⟨rfl, -⟩ | hlt
  · exact hupkeep.not_ends hruns
  · rw [hcallers] at hlt
    exact absurd hlt (Nat.lt_irrefl _)

end

/-! ## Generated modules -/

section

variable {lir : Lir.Module} {w : Module}

/-- A function enters its body with the stack pointer kept, or goes without one. -/
theorem Site.upkeep_frame {f : Lir.Function} (hlt : (siteOf lir f).localCount < UInt32.size) (hf : f.Contained)
    {body : List Instr} (hbody : (siteOf lir f).insts f.body = .ok body) (type : FuncType)
    (zeros args : List Val) (now : Option Val) :
    Upkeep (siteOf lir f).manner now (Module.Callee.frame
      ⟨type, zeros, (siteOf lir f).saved?.elim [] (siteOf lir f).memory.saveStack ++ body⟩ args) now := by
  have hpops := pops_body hlt hf hbody
  cases hsaved : (siteOf lir f).saved? with
  | none =>
    refine .running ⟨?_, hpops, .nil⟩
    simp only [Manner.Kept, manner, hsaved]
  | some x => exact .entered hsaved hpops rfl

/-- All functions of a generated module treat the stack pointer in some manner. -/
theorem mannered_of_generate (hw : generate lir = .ok w) (hf : ∀ f ∈ lir.functions, f.Contained) : w.Mannered := by
  obtain ⟨hassemble, hvalid⟩ := generate_eq_ok.1 hw
  obtain ⟨types, numbers, codes, hassembled⟩ := exists_of_assemble hassemble
  intro index callee hcallee
  cases index with
  | zero =>
    cases Option.some.inj (hassembled.allocator_eq.symm.trans hcallee)
    exact ⟨⟨none, true⟩, fun args now => .running ⟨rfl, Memory.pops_allocatorBody, .nil⟩⟩
  | succ i =>
    obtain ⟨f, hget⟩ := hassembled.exists_function_of_callee hcallee
    have hmem := Array.mem_of_getElem? hget
    obtain ⟨zeros, body, hbody, -, heq⟩ := hassembled.callee_eq hget
    cases Option.some.inj (heq.symm.trans hcallee)
    exact ⟨_, Site.upkeep_frame (hassembled.localCount_lt hvalid hmem) (hf f hmem) hbody _ _⟩

end

/-- Every function of a module that a checked program is compiled to pops its frames. A call of it, with any
arguments, in any state of what calls share and whatever waits for it, that returns leaves the stack pointer
as it was when it was called. It returns with a return, and never comes to the end of its code. -/
theorem call_pops_frames {p : Program} (hp : p.check = .ok ()) {policy : FramePolicy} {n : Nesting}
    (hn : Nesting.of p policy = .ok n) {lir : Lir.Module} (hlower : n.lower = .ok lir) {w : Module}
    (hw : generate lir = .ok w) {i : Nat} {f : Lir.Function} (hf : lir.functions[i]? = some f) (host : Host) :
    ∃ callee, w.callee? (i + 1) = some callee ∧ ∀ args callers inst,
      (∀ s after, Returns host w ⟨callee.frame args, callers, inst⟩ s after →
        after.stackPointer? = inst.stackPointer? ∧ ∃ rest, s.frame.code = .plain .ret :: rest) ∧
      ∀ s, During host w ⟨callee.frame args, callers, inst⟩ s → s.callers = callers →
        ¬(s.frame.code = [] ∧ s.frame.labels = []) := by
  obtain ⟨rfl, hbuilt⟩ := Nesting.built_of_eq_ok (Program.checked_of_check hp) hn
  have hcontained : ∀ f ∈ lir.functions, f.Contained := fun f => Nesting.contained_of_lower hbuilt.checked hlower
  have hgenerated := generated_of_generate hw
  have hmannered := mannered_of_generate hw hcontained
  obtain ⟨zeros, body, hbody, -, hcallee⟩ := hgenerated.function i f hf
  have hmem := Array.mem_of_getElem? hf
  have hstart := Site.upkeep_frame (hgenerated.locals_lt f hmem) (hcontained f hmem) hbody (signature f) zeros
  refine ⟨_, hcallee, fun args callers inst => ⟨fun s after hs => ?_, fun s hs hcallers => ?_⟩⟩
  · obtain ⟨⟨hpointer, hreturns⟩, rfl⟩ := hs.popped hmannered (hstart args _)
    exact ⟨hpointer, hreturns.resolve_left nofun⟩
  · exact hs.not_ends hmannered rfl (hstart args _) hcallers

/-- The running total has its frame on the stack. A call of it in a new instance returns, with the whole stack
free again. -/
theorem call_pops_frames_tally : ∃ n lir w f callee s after, Nesting.of tally .escapeAnalysis = .ok n ∧
    n.lower = .ok lir ∧ generate lir = .ok w ∧ lir.functions[0]? = some f ∧ allocatesOnStack f = true ∧
    w.callee? 1 = some callee ∧
    Returns (fun _ => false) w
      ⟨callee.frame [.i64 5], [], ⟨[.i32 65536, .i32 65536], ⟨fun _ => 0, 2, some 1024⟩, 0⟩⟩ s after ∧
    after.stackPointer? = some (.i32 65536) ∧ ∃ rest, s.frame.code = .plain .ret :: rest := by
  obtain ⟨u, hu⟩ := exists_of_isOk (show (({} : Settings).compile tally).isOk = true by decide +kernel)
  have hknown : (({} : Settings).compile tally).toOption.any (fun u =>
      u.lir.functions[0]?.any allocatesOnStack && (generate u.lir).toOption.any fun w =>
        (w.callee? 1).any fun callee => (State.run (fun _ => false) w 300 ⟨callee.frame [.i64 5], [],
          ⟨[.i32 65536, .i32 65536], ⟨fun _ => 0, 2, some 1024⟩, 0⟩⟩).results?.isSome) = true := by
    decide +kernel
  obtain ⟨n, hn, hlower⟩ := Nesting.exists_of_compile hu
  simp only [hu, Except.toOption, Option.any_some, Bool.and_eq_true, Option.any_eq_true] at hknown
  obtain ⟨⟨f, hf, hstack⟩, hknown⟩ := hknown
  cases hw : generate u.lir with
  | error e => simp [hw] at hknown
  | ok w =>
    simp only [hw, Option.some.injEq, exists_eq_left'] at hknown
    obtain ⟨callee, hcallee, hrun⟩ := hknown
    obtain ⟨results, hresults⟩ := Option.isSome_iff_exists.1 hrun
    obtain ⟨after, hreturned⟩ := Next.exists_of_results? hresults
    obtain ⟨s, hs⟩ := During.start.exists_returns rfl hreturned
    obtain ⟨callee', hcallee', hpops⟩ := call_pops_frames tally_check hn hlower hw hf fun _ => false
    cases Option.some.inj (hcallee.symm.trans hcallee')
    obtain ⟨hpointer, hret⟩ := (hpops _ _ _).1 s after hs
    exact ⟨n, u.lir, w, f, callee, s, after, hn, hlower, hw, hf, hstack, hcallee, hs, hpointer, hret⟩

end StaticChain.Wasm

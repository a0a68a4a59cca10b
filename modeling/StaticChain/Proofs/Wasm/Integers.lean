import StaticChain.Proofs.Numbering
import StaticChain.Proofs.Wasm.Agreement
import StaticChain.Proofs.Wasm.Straight

/-!
# Integer code

Constants and operators on integers (`Lir.IntegerCode`) become code without control. It computes what the
machine does, operator by operator (`execAll_binary`, `execAll_unary`), and so it does for sequences of any
length: where the machine gets through, the locals of the values hold what the machine has computed, and
code traps exactly where the machine does not get through or divides the least integer by minus one
(`integers_agree`). The machine's quotient of these two wraps around; a quotient of generated code that
cannot be represented is a trap (`quotient_traps`).
-/

namespace StaticChain

open Lir (ValueId Inst writes)

namespace Lir

/-- Constants and operators on integers, whose operands are among some values or were computed before. -/
inductive IntegerCode (f : Function) : List ValueId → List Inst → Prop
  | nil {known : List ValueId} : IntegerCode f known []
  | const {known : List ValueId} {dest : ValueId} {x : Int64} {code : List Inst} :
      f.valueType? dest = some .i64 → IntegerCode f (dest :: known) code →
      IntegerCode f known (.const dest x :: code)
  | binary {known : List ValueId} {dest lhs rhs : ValueId} {op : BinOp} {code : List Inst} :
      lhs ∈ known → rhs ∈ known → f.valueType? dest = some .i64 → IntegerCode f (dest :: known) code →
      IntegerCode f known (.binary dest op lhs rhs :: code)
  | unary {known : List ValueId} {dest operand : ValueId} {op : UnaryOp} {code : List Inst} :
      operand ∈ known → f.valueType? dest = some .i64 → IntegerCode f (dest :: known) code →
      IntegerCode f known (.unary dest op operand :: code)

end Lir

namespace Machine

/-! ## Sequences on the machine -/

/-- The division whose quotient cannot be represented. -/
def DividesLeast (op : Lir.BinOp) (x y : Int64) : Prop := op = .div ∧ x = Int64.minValue ∧ y = -1

instance (op : Lir.BinOp) (x y : Int64) : Decidable (DividesLeast op x y) := by
  unfold DividesLeast
  infer_instance

namespace State

variable {lir : Lir.Module} {s s₁ s₂ : State} {n : Nat}

/-- The next instruction faults. -/
def Faults (lir : Lir.Module) (s : State) : Prop :=
  ∃ inst blocks fault store, s.active.settle s.active.blocks = .next inst blocks ∧
    (s.take blocks).step lir inst = .stopped (.failed fault) store

/-- One of the next instructions faults, or divides the least integer by minus one. -/
def Stops (lir : Lir.Module) (n : Nat) (s : State) : Prop :=
  ∃ k s', k < n ∧ Steps lir k s s' ∧ (s'.Faults lir ∨ s'.dividesLeast = true)

theorem Step.unique (h₁ : s.Step lir s₁) (h₂ : s.Step lir s₂) : s₁ = s₂ := by
  obtain ⟨inst, blocks, hsettle, hstep₁⟩ := h₁
  obtain ⟨inst', blocks', hsettle', hstep₂⟩ := h₂
  rw [hsettle] at hsettle'
  cases hsettle'
  rw [hstep₁] at hstep₂
  cases hstep₂
  rfl

theorem Step.not_faults (h : s.Step lir s₁) : ¬s.Faults lir := by
  rintro ⟨inst', blocks', fault, store, hsettle', hstopped⟩
  obtain ⟨inst, blocks, hsettle, hstep⟩ := h
  rw [hsettle] at hsettle'
  cases hsettle'
  rw [hstep] at hstopped
  cases hstopped

theorem Stops.now (h : s.Faults lir ∨ s.dividesLeast = true) : s.Stops lir (n + 1) :=
  ⟨0, s, Nat.succ_pos n, .refl s, h⟩

theorem not_stops_zero : ¬s.Stops lir 0 := fun ⟨_, _, hlt, _⟩ => absurd hlt (Nat.not_lt_zero _)

theorem stops_succ_iff (h : s.Step lir s₁) (hd : s.dividesLeast = false) :
    s.Stops lir (n + 1) ↔ s₁.Stops lir n := by
  constructor
  · rintro ⟨k, s', hk, hsteps, hstop⟩
    cases hsteps with
    | refl =>
      rcases hstop with hfaults | hleast
      · exact absurd hfaults h.not_faults
      · rw [hd] at hleast
        cases hleast
    | head hstep hsteps =>
      cases h.unique hstep
      exact ⟨_, s', Nat.lt_of_succ_lt_succ hk, hsteps, hstop⟩
  · rintro ⟨k, s', hk, hsteps, hstop⟩
    exact ⟨k + 1, s', Nat.succ_lt_succ hk, .head h hsteps, hstop⟩

end State

end Machine

namespace Wasm

open Machine (Activation Block BlockKind Value DividesLeast)

/-! ## Operators -/

section

variable {host : Host} {locals stack : List Val} {inst : Instance}

/-- A truth value becomes a number of 64 bits. -/
theorem extend_truth (d : Data) (b : Bool) : d.extend (truth b :: stack) =
    .done { d with stack := .i64 (if b then (1 : Int64) else 0).toBitVec :: stack } := by
  cases b <;> rfl

variable (host) in
/-- What the code of an operator does with its operands. -/
theorem execAll_binary (op : Lir.BinOp) (x y : Int64) :
    Data.execAll host (Site.binary op) ⟨locals, .i64 y.toBitVec :: .i64 x.toBitVec :: stack, inst⟩ =
      if DividesLeast op x y then .trap .overflow
      else match Machine.binary op x y with
        | .ok (.int z) => .done ⟨locals, .i64 z.toBitVec :: stack, inst⟩
        | _ => .trap .divisionByZero := by
  have hzero : y.toBitVec = (0 : BitVec 64) ↔ y = 0 := Int64.toBitVec_inj (b := 0)
  have hleast : x.toBitVec = BitVec.intMin 64 ∧ y.toBitVec = (-1 : BitVec 64) ↔ x = Int64.minValue ∧ y = -1 :=
    and_congr (Int64.toBitVec_inj (b := Int64.minValue)) (Int64.toBitVec_inj (b := -1))
  have hcompare : ∀ (rel : IntRel) (b : Bool), rel.eval x.toBitVec y.toBitVec = b →
      Data.execAll host [.plain (.rel .w64 rel), .plain .extend]
        ⟨locals, .i64 y.toBitVec :: .i64 x.toBitVec :: stack, inst⟩ =
      .done ⟨locals, .i64 (if b then (1 : Int64) else 0).toBitVec :: stack, inst⟩ := by
    rintro rel b rfl
    simp only [Data.execAll, Data.exec_rel, Data.exec_extend, Data.rel, Done.andThen, extend_truth]
  cases op with
  | add => rfl
  | sub => rfl
  | mul => rfl
  | div =>
    simp only [Site.binary, Data.execAll, Data.exec_bin, Data.bin, IntBin.eval, Machine.binary, DividesLeast, hzero,
      hleast, true_and]
    by_cases hy : y = 0
    · simp [hy, Done.andThen]
    · by_cases hxy : x = Int64.minValue ∧ y = -1
      · simp [hxy, Done.andThen]
      · simp [hy, hxy, Done.andThen]
  | rem =>
    simp only [Site.binary, Data.execAll, Data.exec_bin, Data.bin, IntBin.eval, Machine.binary, DividesLeast, hzero]
    by_cases hy : y = 0
    · simp [hy, Done.andThen]
    · simp [hy, Done.andThen]
  | eq => exact hcompare .eq _ (toBitVec_beq x y)
  | ne => exact hcompare .ne _ (toBitVec_bne x y)
  | lt => exact hcompare .ltS _ (toBitVec_slt x y)
  | le => exact hcompare .leS _ (toBitVec_sle x y)
  | gt => exact hcompare .gtS _ (toBitVec_slt y x)
  | ge => exact hcompare .geS _ (toBitVec_sle y x)

/-- What the code of an operator with one operand does. -/
theorem execAll_unary {s : Site} {r : ValueId} (op : Lir.UnaryOp) {x z : Int64}
    (hr : locals[s.value r]? = some (.i64 x.toBitVec)) (h : Machine.unary op x = .int z) :
    Data.execAll host (s.unary r op) ⟨locals, stack, inst⟩ = .done ⟨locals, .i64 z.toBitVec :: stack, inst⟩ := by
  cases op with
  | neg =>
    cases h
    simp [Site.unary, Site.get, Data.execAll, Data.push, Data.pushSome, Data.bin, IntBin.eval, hr,
      Done.andThen]
  | eqz =>
    cases h
    have hzero : (x.toBitVec == 0) = (x == 0) := toBitVec_beq x 0
    simp only [Site.unary, Site.get, Data.execAll, Data.exec_localGet, Data.exec_eqz, Data.exec_extend,
      Data.push, Data.pushSome, Data.eqz, hr, hzero, Done.andThen, extend_truth]

end

/-! ## Instructions -/

section

variable {lir : Lir.Module} {f : Lir.Function} {memory : Memory} {targets : List Lir.Function}

/-- The integers of some values are in the locals of code. -/
def KnownIn (site : Site) (known : List ValueId) (a : Activation) (locals : List Val) : Prop :=
  ∀ r ∈ known, ∃ x, a.value r = .ok (.int x) ∧ locals[site.value r]? = some (.i64 x.toBitVec)

/-- The activation and the locals have room for the values of the function, whose locals can be numbered. -/
structure Roomy (f : Lir.Function) (a : Activation) (locals : List Val) : Prop where
  values_size : a.values.size = f.valueTypes.size
  le_length : f.locals.size + f.valueTypes.size ≤ locals.length
  le_size : f.locals.size + f.valueTypes.size ≤ UInt32.size

variable {site : Site} {known : List ValueId} {a : Activation} {locals : List Val}

theorem Roomy.value_eq (h : Roomy site.function a locals) {r : ValueId}
    (hr : r.index < site.function.valueTypes.size) : site.value r = site.function.locals.size + r.index := by
  have := h.le_size
  exact Nat.mod_eq_of_lt (by omega)

theorem Roomy.withBlocks (h : Roomy f a locals) (blocks : List Block) : Roomy f { a with blocks } locals :=
  ⟨h.values_size, h.le_length, h.le_size⟩

theorem Roomy.define (h : Roomy f a locals) (dest : ValueId) (v : Value) (i : Nat) (x : Val) :
    Roomy f (a.define dest v) (locals.set i x) :=
  ⟨by simpa [Activation.define] using h.values_size, by simpa using h.le_length, h.le_size⟩

/-- A value is computed. -/
theorem KnownIn.define (h : KnownIn site known a locals) (hroom : Roomy site.function a locals) {dest : ValueId}
    (hd : site.function.valueType? dest = some .i64) (x : Int64) :
    KnownIn site (dest :: known) (a.define dest (.int x)) (locals.set (site.value dest) (.i64 x.toBitVec)) := by
  have hdest : dest.index < site.function.valueTypes.size := (Array.getElem?_eq_some_iff.1 hd).1
  intro r hr
  by_cases heq : r = dest
  · subst heq
    refine ⟨x, Activation.value_define_self (hroom.values_size ▸ hdest), List.getElem?_set_self ?_⟩
    rw [hroom.value_eq hdest]
    have := hroom.le_length
    omega
  · obtain ⟨y, hy, hlocal⟩ := h r ((List.mem_cons.1 hr).resolve_left heq)
    have hr : r.index < site.function.valueTypes.size := by
      rw [← hroom.values_size]
      exact (Array.getElem?_eq_some_iff.1 (Activation.value_eq_ok.1 hy)).1
    refine ⟨y, (Activation.value_define_of_ne heq).trans hy, ?_⟩
    rw [hroom.value_eq hr] at hlocal
    rw [hroom.value_eq hdest, hroom.value_eq hr, List.getElem?_set_ne, hlocal]
    intro hindex
    exact heq (congrArg ValueId.mk (by omega))

end

/-! ## Sequences -/

section

variable {lir : Lir.Module} {site : Site} {host : Host} {known : List ValueId} {i : Inst} {code : List Inst}
  {first rest : List Instr} {s s₁ : Machine.State} {d : Data} {locals : List Val} {blocks outer : List Block}
  {kind : BlockKind} {left : List Inst}

/-- How a sequence ends on the machine and in generated code: either the machine does not get through or
divides the least integer by minus one, and code traps, or both get through with the same integers. -/
inductive SameEnd (lir : Lir.Module) (site : Site) (host : Host) (known : List ValueId) (blocks : List Block)
    (code : List Inst) (instrs : List Instr) (s : Machine.State) (d : Data) : Prop
  | stops {why : Trap} : s.Stops lir code.length → d.execAll host instrs = .trap why →
      SameEnd lir site host known blocks code instrs s d
  | through {s' : Machine.State} {locals : List Val} : ¬s.Stops lir code.length →
      Machine.State.Steps lir code.length s s' → s'.active.blocks = blocks →
      d.execAll host instrs = .done { d with locals } → KnownIn site known s'.active locals →
      SameEnd lir site host known blocks code instrs s d

theorem SameEnd.mono {known' : List ValueId} {instrs : List Instr}
    (h : SameEnd lir site host known blocks code instrs s d) (hsub : ∀ r ∈ known', r ∈ known) :
    SameEnd lir site host known' blocks code instrs s d := by
  cases h with
  | stops hstops htrap => exact .stops hstops htrap
  | through hnot hsteps hblocks hdone hknown =>
    exact .through hnot hsteps hblocks hdone fun r hr => hknown r (hsub r hr)

/-- The first instruction is carried out on both sides. -/
theorem SameEnd.head (hstep : s.Step lir s₁) (hleast : s.dividesLeast = false)
    (hexec : d.execAll host first = .done { d with locals })
    (h : SameEnd lir site host known blocks code rest s₁ { d with locals }) :
    SameEnd lir site host known blocks (i :: code) (first ++ rest) s d := by
  have happend : d.execAll host (first ++ rest) = Data.execAll host rest { d with locals } := by
    rw [Data.execAll_append, hexec, Done.andThen]
  cases h with
  | stops hstops htrap =>
    exact .stops ((Machine.State.stops_succ_iff hstep hleast).2 hstops) (happend.trans htrap)
  | through hnot hsteps hblocks hdone hknown =>
    exact .through (fun hstops => hnot ((Machine.State.stops_succ_iff hstep hleast).1 hstops))
      (.head hstep hsteps) hblocks (happend.trans hdone) hknown

/-- The first instruction is the end on both sides. -/
theorem SameEnd.now {why : Trap} (hstop : s.Faults lir ∨ s.dividesLeast = true)
    (hexec : d.execAll host first = .trap why) :
    SameEnd lir site host known blocks (i :: code) (first ++ rest) s d :=
  .stops (.now hstop) (by rw [Data.execAll_append, hexec, Done.andThen])

theorem settle_of_blocks (hb : s.active.blocks = ⟨i :: left, kind⟩ :: outer) :
    s.active.settle s.active.blocks = .next i (⟨left, kind⟩ :: outer) := by
  rw [hb]
  rfl

/-- An instruction computes a value. -/
theorem step_define (hb : s.active.blocks = ⟨i :: left, kind⟩ :: outer) {dest : ValueId} {v : Value}
    (he : { s.active with blocks := ⟨left, kind⟩ :: outer }.Does lir s.store i (.define dest v)) :
    s.Step lir ⟨{ s.active with blocks := ⟨left, kind⟩ :: outer }.define dest v, s.callers, s.store⟩ := by
  refine ⟨i, _, settle_of_blocks hb, ?_⟩
  change Machine.State.step lir ⟨{ s.active with blocks := ⟨left, kind⟩ :: outer }, s.callers, s.store⟩ i = _
  rw [Machine.State.step, he.effect_eq]
  rfl

theorem dividesLeast_binary {dest lhs rhs : ValueId} {op : Lir.BinOp} {x y : Int64}
    (hb : s.active.blocks = ⟨.binary dest op lhs rhs :: left, kind⟩ :: outer)
    (hx : s.active.value lhs = .ok (.int x)) (hy : s.active.value rhs = .ok (.int y)) :
    s.dividesLeast = decide (DividesLeast op x y) := by
  unfold Machine.State.dividesLeast
  rw [settle_of_blocks hb]
  cases op <;> simp [hx, hy, DividesLeast, beq_eq_decide]

/-- An operator faults where its operands have no result. -/
theorem faults_binary {dest lhs rhs : ValueId} {op : Lir.BinOp} {x y : Int64} {fault : Machine.Fault}
    (hb : s.active.blocks = ⟨.binary dest op lhs rhs :: left, kind⟩ :: outer)
    (hx : s.active.value lhs = .ok (.int x)) (hy : s.active.value rhs = .ok (.int y))
    (hop : Machine.binary op x y = .error fault) : s.Faults lir := by
  have he : Activation.effect { s.active with blocks := ⟨left, kind⟩ :: outer } lir s.store
      (.binary dest op lhs rhs) = .error fault :=
    bind_eq_error.2 (.inr ⟨x, Activation.int_eq_ok.2 hx, bind_eq_error.2 (.inr ⟨y, Activation.int_eq_ok.2 hy,
      bind_eq_error.2 (.inl hop)⟩)⟩)
  refine ⟨_, _, fault, (s.take (⟨left, kind⟩ :: outer)).unwind, settle_of_blocks hb, ?_⟩
  change Machine.State.step lir ⟨{ s.active with blocks := ⟨left, kind⟩ :: outer }, s.callers, s.store⟩ _ = _
  rw [Machine.State.step, he]
  rfl

/-- An instruction that computes an integer has code that does the same. -/
theorem SameEnd.define {dest : ValueId} {x : Int64} (hd : site.function.valueType? dest = some .i64)
    (hroom : Roomy site.function s.active d.locals) (hknown : KnownIn site known s.active d.locals)
    (hb : s.active.blocks = ⟨i :: left, kind⟩ :: outer) (hleast : s.dividesLeast = false)
    (he : { s.active with blocks := ⟨left, kind⟩ :: outer }.Does lir s.store i (.define dest (.int x)))
    (hexec : d.execAll host first = .done { d with stack := .i64 x.toBitVec :: d.stack })
    (hwrites : writes (i :: code) = dest :: writes code)
    (h : ∀ (s₁ : Machine.State) (d₁ : Data), s₁.active.blocks = ⟨left, kind⟩ :: outer →
      Roomy site.function s₁.active d₁.locals → KnownIn site (dest :: known) s₁.active d₁.locals →
      SameEnd lir site host (writes code ++ dest :: known) blocks code rest s₁ d₁) :
    SameEnd lir site host (writes (i :: code) ++ known) blocks (i :: code) (first ++ [site.set dest] ++ rest) s
      d := by
  have hlt : site.value dest < d.locals.length := by
    have hdest := (Array.getElem?_eq_some_iff.1 hd).1
    rw [hroom.value_eq hdest]
    have := hroom.le_length
    omega
  have hset : d.execAll host (first ++ [site.set dest]) =
      .done { d with locals := d.locals.set (site.value dest) (.i64 x.toBitVec) } := by
    rw [Data.execAll_append, hexec]
    simp [Site.set, Data.execAll, Data.localSet, Done.andThen, hlt]
  have hend := h ⟨{ s.active with blocks := ⟨left, kind⟩ :: outer }.define dest (.int x), s.callers, s.store⟩
    { d with locals := d.locals.set (site.value dest) (.i64 x.toBitVec) } rfl
    ((hroom.withBlocks _).define ..) (hknown.define hroom hd x)
  refine (SameEnd.head (step_define hb he) hleast hset hend).mono fun r hr => ?_
  simp only [hwrites, List.cons_append, List.mem_cons, List.mem_append] at hr ⊢
  tauto

/-- Integer code ends the same way on both sides. -/
theorem sameEnd_of_integerCode (h : Lir.IntegerCode site.function known code) {instrs : List Instr}
    (hinstrs : site.insts code = .ok instrs) (hb : s.active.blocks = ⟨code ++ left, kind⟩ :: outer)
    (hroom : Roomy site.function s.active d.locals) (hknown : KnownIn site known s.active d.locals) :
    SameEnd lir site host (writes code ++ known) (⟨left, kind⟩ :: outer) code instrs s d := by
  -- What is carried along is that values which are known have the same integers on both sides.
  induction h generalizing s d instrs with
  | nil =>
    cases hinstrs
    exact .through Machine.State.not_stops_zero (.refl s) hb rfl (by simpa using hknown)
  | @const known dest x code hd _ ih =>
    obtain ⟨_, ⟨⟩, hinstrs⟩ := bind_eq_ok.1 hinstrs
    obtain ⟨rest, hrest, ⟨⟩⟩ := bind_eq_ok.1 hinstrs
    change SameEnd lir site host _ _ _ ([.plain (.const64 x)] ++ [site.set dest] ++ rest) s d
    refine SameEnd.define hd hroom hknown hb ?_ .const rfl rfl fun _ _ => ih hrest
    simp [Machine.State.dividesLeast, settle_of_blocks hb]
  | @binary known dest lhs rhs op code hl hr hd _ ih =>
    obtain ⟨_, ⟨⟩, hinstrs⟩ := bind_eq_ok.1 hinstrs
    obtain ⟨rest, hrest, ⟨⟩⟩ := bind_eq_ok.1 hinstrs
    obtain ⟨x, hx, hlhs⟩ := hknown lhs hl
    obtain ⟨y, hy, hrhs⟩ := hknown rhs hr
    have hleast := dividesLeast_binary hb hx hy
    have hcode : d.execAll host ([site.get lhs, site.get rhs] ++ Site.binary op) =
        if DividesLeast op x y then .trap .overflow
        else match Machine.binary op x y with
          | .ok (.int z) => .done { d with stack := .i64 z.toBitVec :: d.stack }
          | _ => .trap .divisionByZero := by
      refine Eq.trans ?_ (execAll_binary host op x y)
      simp [Site.get, Data.execAll, Data.push, Data.pushSome, Done.andThen, hlhs, hrhs]
    have htrap : ∀ why, d.execAll host ([site.get lhs, site.get rhs] ++ Site.binary op) = .trap why →
        d.execAll host ([site.get lhs, site.get rhs] ++ Site.binary op ++ [site.set dest]) = .trap why := by
      intro why hwhy
      rw [Data.execAll_append, hwhy, Done.andThen]
    -- The code of the operator traps before the result is stored, so the whole code of the instruction does.
    by_cases hdiv : DividesLeast op x y
    · rw [if_pos hdiv] at hcode
      exact .now (.inr (by simp [hleast, hdiv])) (htrap _ hcode)
    rw [if_neg hdiv] at hcode
    cases hop : Machine.binary op x y with
    | error fault =>
      rw [hop] at hcode
      exact .now (.inl (faults_binary hb hx hy hop)) (htrap _ hcode)
    | ok v =>
      obtain ⟨z, rfl⟩ := Machine.binary_eq_ok hop
      rw [hop] at hcode
      exact SameEnd.define hd hroom hknown hb (by simp [hleast, hdiv]) (.binary hx hy hop) hcode rfl fun _ _ => ih hrest
  | @unary known dest operand op code ho hd _ ih =>
    obtain ⟨_, ⟨⟩, hinstrs⟩ := bind_eq_ok.1 hinstrs
    obtain ⟨rest, hrest, ⟨⟩⟩ := bind_eq_ok.1 hinstrs
    obtain ⟨x, hx, hlocal⟩ := hknown operand ho
    obtain ⟨z, hz⟩ := Machine.unary_eq op x
    refine SameEnd.define hd hroom hknown hb ?_ (hz ▸ .unary hx) (execAll_unary op hlocal hz) rfl fun _ _ => ih hrest
    simp [Machine.State.dividesLeast, settle_of_blocks hb]

/-- Integer code has generated code. -/
theorem exists_insts_of_integerCode (h : Lir.IntegerCode site.function known code) :
    ∃ instrs, site.insts code = .ok instrs := by
  induction h with
  | nil => exact ⟨[], rfl⟩
  | const _ _ ih =>
    obtain ⟨rest, hrest⟩ := ih
    exact ⟨_, bind_eq_ok.2 ⟨_, rfl, bind_eq_ok.2 ⟨rest, hrest, rfl⟩⟩⟩
  | binary _ _ _ _ ih =>
    obtain ⟨rest, hrest⟩ := ih
    exact ⟨_, bind_eq_ok.2 ⟨_, rfl, bind_eq_ok.2 ⟨rest, hrest, rfl⟩⟩⟩
  | unary _ _ _ ih =>
    obtain ⟨rest, hrest⟩ := ih
    exact ⟨_, bind_eq_ok.2 ⟨_, rfl, bind_eq_ok.2 ⟨rest, hrest, rfl⟩⟩⟩

end

/-- Integer code means the same on the machine and in generated code, wherever it stands in a function. Code
traps exactly if within the sequence the machine faults or divides the least integer by minus one. Otherwise
both get through, and the locals of the values hold the integers that the machine has computed. -/
theorem integers_agree (site : Site) {code : List Inst} (hcode : Lir.IntegerCode site.function [] code)
    {s : Machine.State} {left : List Inst} {kind : BlockKind} {outer : List Block}
    (hblocks : s.active.blocks = ⟨code ++ left, kind⟩ :: outer) {locals : List Val}
    (hroom : Roomy site.function s.active locals) (lir : Lir.Module) (host : Host) (m : Module)
    (stack : List Val) (after : List Instr) (labels : List Label) (arity : Nat) (callers : List Frame)
    (inst : Instance) : ∃ instrs ran, site.insts code = .ok instrs ∧
      State.run host m instrs.length ⟨⟨locals, stack, instrs ++ after, labels, arity⟩, callers, inst⟩ = ran ∧
      ((∃ why t, ran = .trapped why t) ↔ s.Stops lir code.length) ∧
      (¬s.Stops lir code.length → ∃ s' locals', Machine.State.Steps lir code.length s s' ∧
        s'.active.blocks = ⟨left, kind⟩ :: outer ∧
        ran = .running ⟨⟨locals', stack, after, labels, arity⟩, callers, inst⟩ ∧
        ∀ r ∈ writes code, ∃ x, s'.active.value r = .ok (.int x) ∧
          locals'[site.value r]? = some (.i64 x.toBitVec)) := by
  obtain ⟨instrs, hinstrs⟩ := exists_insts_of_integerCode hcode
  refine ⟨instrs, _, hinstrs, rfl, ?_⟩
  have hend : SameEnd lir site host (writes code ++ []) (⟨left, kind⟩ :: outer) code instrs s ⟨locals, stack, inst⟩ :=
    sameEnd_of_integerCode hcode hinstrs hblocks hroom fun r hr => absurd hr List.not_mem_nil
  let t : State := ⟨⟨locals, stack, [], labels, arity⟩, callers, inst⟩
  cases hend with
  | stops hstops htrap =>
    exact ⟨⟨fun _ => hstops, fun _ => ⟨_, State.exists_run_of_trap (s := t) htrap⟩⟩, fun hnot => absurd hstops hnot⟩
  | @through s' locals' hnot hsteps hleft hdone hknown =>
    have hran : State.run host m instrs.length ⟨⟨locals, stack, instrs ++ after, labels, arity⟩, callers, inst⟩ =
        .running ⟨⟨locals', stack, after, labels, arity⟩, callers, inst⟩ := State.run_of_done (s := t) hdone
    refine ⟨⟨fun ⟨_, _, htrapped⟩ => ?_, fun hstops => absurd hstops hnot⟩, fun _ => ⟨s', locals', hsteps, hleft,
      hran, fun r hr => hknown r (by simpa using hr)⟩⟩
    rw [hran] at htrapped
    cases htrapped

/-- The least integer divided by another. -/
def quotientCode (y : Int64) : List Inst :=
  [.const ⟨0⟩ Int64.minValue, .const ⟨1⟩ y, .binary ⟨2⟩ .div ⟨0⟩ ⟨1⟩]

def quotient (y : Int64) : Lir.Function where
  id := ⟨0⟩
  name := "quotient"
  decl := ⟨0⟩
  hasContext := false
  params := []
  ret := some .i64
  locals := #[]
  valueTypes := #[.i64, .i64, .i64]
  body := quotientCode y ++ [.ret (some ⟨2⟩)]

/-- A machine that starts with the division. -/
def quotientStart (y : Int64) : Machine.State :=
  ⟨⟨quotient y, #[none, none, none], #[], [], [⟨quotientCode y ++ [.ret (some ⟨2⟩)], .straight⟩], none⟩, .empty,
    .empty⟩

theorem integerCode_quotient (y : Int64) : Lir.IntegerCode (quotient y) [] (quotientCode y) :=
  .const rfl (.const rfl (.binary (by decide) (by decide) rfl .nil))

/-- Half the least integer is computed on both sides. -/
theorem integers_agree_halved : Lir.IntegerCode (quotient 2) [] (quotientCode 2) ∧
    Roomy (quotient 2) (quotientStart 2).active [.i64 0, .i64 0, .i64 0] ∧
    ¬(quotientStart 2).Stops ⟨#[], #[quotient 2]⟩ 3 ∧
    ∃ instrs s' locals', Site.insts (siteOf ⟨#[], #[quotient 2]⟩ (quotient 2)) (quotientCode 2) = .ok instrs ∧
      Machine.State.Steps ⟨#[], #[quotient 2]⟩ 3 (quotientStart 2) s' ∧
      State.run (fun _ => false) runtime instrs.length ⟨⟨[.i64 0, .i64 0, .i64 0], [], instrs ++ [], [], 0⟩, [],
        ⟨[], ⟨fun _ => 0, 2, none⟩, 0⟩⟩ = .running ⟨⟨locals', [], [], [], 0⟩, [], ⟨[], ⟨fun _ => 0, 2, none⟩, 0⟩⟩ ∧
      s'.active.value ⟨2⟩ = .ok (.int (-4611686018427387904)) ∧
      locals'[2]? = some (.i64 (-4611686018427387904)) := by
  have hroom : Roomy (quotient 2) (quotientStart 2).active [.i64 0, .i64 0, .i64 0] := ⟨rfl, by decide, by decide⟩
  have hblocks : (quotientStart 2).active.blocks = ⟨quotientCode 2 ++ [.ret (some ⟨2⟩)], .straight⟩ :: [] := rfl
  have hnot : ¬(quotientStart 2).Stops ⟨#[], #[quotient 2]⟩ 3 := by
    intro hstops
    have hsecond := (Machine.State.stops_succ_iff ⟨_, _, rfl, rfl⟩ rfl).1 hstops
    have hthird := (Machine.State.stops_succ_iff ⟨_, _, rfl, rfl⟩ rfl).1 hsecond
    exact Machine.State.not_stops_zero ((Machine.State.stops_succ_iff ⟨_, _, rfl, rfl⟩ rfl).1 hthird)
  obtain ⟨instrs, ran, hinstrs, hran, -, hthrough⟩ := integers_agree (siteOf ⟨#[], #[quotient 2]⟩ (quotient 2))
    (integerCode_quotient 2) hblocks hroom ⟨#[], #[quotient 2]⟩ (fun _ => false) runtime [] [] [] 0 []
    ⟨[], ⟨fun _ => 0, 2, none⟩, 0⟩
  obtain ⟨s', locals', hsteps, -, hrunning, hknown⟩ := hthrough hnot
  obtain ⟨x, hx, hlocal⟩ := hknown ⟨2⟩ (by decide)
  -- The machine has one way to go, and the quotient is what it computes.
  have hvalue : s'.active.value ⟨2⟩ = .ok (.int (-4611686018427387904)) := by
    obtain _ | ⟨hfirst, _ | ⟨hsecond, _ | ⟨hthird, ⟨⟩⟩⟩⟩ := id hsteps
    cases hfirst.unique ⟨_, _, rfl, rfl⟩
    cases hsecond.unique ⟨_, _, rfl, rfl⟩
    cases hthird.unique ⟨_, _, rfl, rfl⟩
    rfl
  cases hx.symm.trans hvalue
  exact ⟨integerCode_quotient 2, hroom, hnot, instrs, s', locals', hinstrs, hsteps, hran.trans hrunning, hvalue, hlocal⟩

/-- The machine divides the least integer by minus one where generated code traps. -/
theorem quotient_traps : ∃ instrs t s',
    Site.insts (siteOf ⟨#[], #[quotient (-1)]⟩ (quotient (-1))) (quotientCode (-1)) = .ok instrs ∧
      State.run (fun _ => false) runtime instrs.length ⟨⟨[.i64 0, .i64 0, .i64 0], [], instrs, [], 0⟩, [],
        ⟨[], ⟨fun _ => 0, 2, none⟩, 0⟩⟩ = .trapped .overflow t ∧
      Machine.State.Steps ⟨#[], #[quotient (-1)]⟩ 3 (quotientStart (-1)) s' ∧
      s'.active.value ⟨2⟩ = .ok (.int Int64.minValue) := by
  refine ⟨_, _, _, rfl, rfl, .head ⟨_, _, rfl, rfl⟩ (.head ⟨_, _, rfl, rfl⟩ (.head ⟨_, _, rfl, rfl⟩ (.refl _))), rfl⟩

end Wasm

end StaticChain

import StaticChain.Proofs.Wasm.Execution

/-!
# Code without control

A sequence of plain instructions transforms locals, operands and what calls share, one instruction after
the other (`Data.execAll`). A run goes through it in as many steps as there are instructions
(`State.run_of_done`), unless it traps on the way (`State.exists_run_of_trap`).
-/

namespace StaticChain.Wasm

/-! ## Instructions -/

namespace Data

variable (d : Data) (host : Host)

@[simp] theorem exec_localGet (i : Nat) : d.exec host (.localGet i) = d.pushSome d.locals[i]? := rfl

@[simp] theorem exec_localSet (i : Nat) : d.exec host (.localSet i) = d.localSet i d.stack := rfl

@[simp] theorem exec_globalGet (i : Nat) : d.exec host (.globalGet i) = d.pushSome d.inst.globals[i]? := rfl

@[simp] theorem exec_globalSet (i : Nat) : d.exec host (.globalSet i) = d.globalSet i d.stack := rfl

@[simp] theorem exec_const32 (x : Int32) : d.exec host (.const32 x) = d.push (.i32 x.toBitVec) := rfl

@[simp] theorem exec_const64 (x : Int64) : d.exec host (.const64 x) = d.push (.i64 x.toBitVec) := rfl

@[simp] theorem exec_bin (width : Width) (op : IntBin) : d.exec host (.bin width op) = d.bin op width d.stack := rfl

@[simp] theorem exec_rel (width : Width) (op : IntRel) : d.exec host (.rel width op) = d.rel op width d.stack := rfl

@[simp] theorem exec_eqz (width : Width) : d.exec host (.eqz width) = d.eqz width d.stack := rfl

@[simp] theorem exec_extend : d.exec host .extend = d.extend d.stack := rfl

end Data

/-! ## Sequences -/

/-- What follows where the instructions before come to their end. -/
def Done.andThen : Done → (Data → Done) → Done
  | .done d, next => next d
  | .trap why, _ => .trap why
  | .stuck, _ => .stuck

/-- What plain instructions do one after the other. -/
def Data.execAll (host : Host) : List Instr → Data → Done
  | [], d => .done d
  | .plain op :: code, d => (d.exec host op).andThen (execAll host code)
  | _ :: _, _ => .stuck

theorem Data.execAll_append (host : Host) (first second : List Instr) (d : Data) :
    execAll host (first ++ second) d = (execAll host first d).andThen (execAll host second) := by
  induction first generalizing d with
  | nil => simp [execAll, Done.andThen]
  | cons instr first ih =>
    cases instr with
    | plain op =>
      simp only [List.cons_append, execAll]
      cases d.exec host op with
      | done d => exact ih d
      | _ => rfl
    | _ => simp [execAll, Done.andThen]

namespace State

variable {host : Host} {m : Module}

/-- Steps are taken one after the other. -/
theorem run_add (n k : Nat) (s : State) : s.run host m (n + k) =
    match s.run host m n with
    | .running s => s.run host m k
    | ended => ended := by
  induction n generalizing s with
  | zero => simp [run]
  | succ n ih =>
    rw [Nat.add_right_comm, run, run]
    cases s.step host m with
    | running s => exact ih s
    | _ => rfl

/-- A run that is over stays so. -/
theorem run_of_le {s : State} {n k : Nat} (hle : n ≤ k) (h : ∀ t, s.run host m n ≠ .running t) :
    s.run host m k = s.run host m n := by
  obtain ⟨j, rfl⟩ := Nat.exists_eq_add_of_le hle
  rw [run_add]
  cases hrun : s.run host m n with
  | running t => exact absurd hrun (h t)
  | _ => rfl

/-- Runs that are over end the same way. -/
theorem run_unique {s : State} {n k : Nat} {first second : Next} (hn : s.run host m n = first)
    (hk : s.run host m k = second) (hfirst : ∀ t, first ≠ .running t) (hsecond : ∀ t, second ≠ .running t) :
    first = second := by
  subst hn hk
  rcases Nat.le_total n k with hle | hle
  · exact (run_of_le hle hfirst).symm
  · exact run_of_le hle hsecond

/-- The state with other locals and operands, code that is left, and what calls share. -/
def withData (s : State) (d : Data) (code : List Instr) : State :=
  { s with frame := { s.frame with locals := d.locals, stack := d.stack, code }, inst := d.inst }

/-- A plain instruction that is not about control. -/
theorem step_plain {s : State} {d : Data} {op : Op} {rest : List Instr} (h : d.exec host op ≠ .stuck) :
    (s.withData d (.plain op :: rest)).step host m =
      (s.withData d (.plain op :: rest)).after rest (d.exec host op) := by
  change State.plain _ host m rest op = _
  cases op with
  | unreachable => exact absurd rfl h
  | br label => exact absurd rfl h
  | brIf label => exact absurd rfl h
  | ret => exact absurd rfl h
  | call function => exact absurd rfl h
  | _ => rfl

/-- A run goes through code without control. -/
theorem run_of_done {s : State} {first rest : List Instr} {d d' : Data} (h : d.execAll host first = .done d') :
    (s.withData d (first ++ rest)).run host m first.length = .running (s.withData d' rest) := by
  induction first generalizing d with
  | nil =>
    cases h
    rfl
  | cons instr first ih =>
    cases instr with
    | plain op =>
      rw [Data.execAll] at h
      cases hop : d.exec host op with
      | done d₁ =>
        rw [hop] at h
        rw [List.cons_append, List.length_cons, run, step_plain (by simp [hop]), hop]
        exact ih h
      | _ =>
        rw [hop] at h
        cases h
    | _ => cases h

/-- A run traps where code without control does, and does not get to its end. -/
theorem exists_run_of_trap {s : State} {first rest : List Instr} {d : Data} {why : Trap}
    (h : d.execAll host first = .trap why) :
    ∃ t, (s.withData d (first ++ rest)).run host m first.length = .trapped why t := by
  induction first generalizing d with
  | nil => cases h
  | cons instr first ih =>
    cases instr with
    | plain op =>
      rw [Data.execAll] at h
      cases hop : d.exec host op with
      | done d₁ =>
        rw [hop] at h
        rw [List.cons_append, List.length_cons, run, step_plain (by simp [hop]), hop]
        exact ih h
      | trap why' =>
        rw [hop] at h
        cases h
        rw [List.cons_append, List.length_cons, run, step_plain (by simp [hop]), hop]
        exact ⟨_, rfl⟩
      | stuck =>
        rw [hop] at h
        cases h
    | _ => cases h

end State

end StaticChain.Wasm

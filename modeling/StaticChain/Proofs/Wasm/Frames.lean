import StaticChain.Proofs.Wasm.Allocating
import StaticChain.Proofs.Wasm.Blocks

/-!
# Activations and frames

A frame of generated code shows an activation of the machine: its locals hold the values and locals of the
activation (`LocalsShow`), and one of them the stack pointer of its start, if it may have stack objects
(`Keeps`). A frame that waits goes on with the result of the call that it waits for (`Waiting`). `Sim` is
the relation between the states of a machine and of generated code that holds before each instruction.
-/

namespace StaticChain.Wasm

open Lir (ValueId LocalId FunctionId StructId AllocKind Inst)
open Machine (Activation Block CallStack Value Object ObjectId Store reachOf)

/-- What is needed of a low-level module besides that it could be generated: functions are numbered by
position and write to values that they have, and objects are not larger than what is left unused below the
stack. -/
structure Ready (lir : Lir.Module) (w : Module) : Prop where
  generated : Generated lir w
  id_eq : ∀ id f, lir.function? id = some f → f.id = id
  closed : ∀ id f, lir.function? id = some f → f.Closed
  small : ∀ id layout, lir.struct? id = some layout → layout.slots.length ≤ 128

namespace Site

theorem value_lt (lir : Lir.Module) {f : Lir.Function} {r : ValueId} (hr : r.index < f.valueTypes.size) :
    f.locals.size + r.index < (siteOf lir f).localCount := by
  simp only [localCount, siteOf_function]
  omega

variable {lir : Lir.Module} {w : Module} {f : Lir.Function} (hw : Ready lir w) (hf : lir.function? f.id = some f)
include hw hf

theorem localCount_lt : (siteOf lir f).localCount < UInt32.size :=
  hw.generated.locals_lt f (Array.mem_of_getElem? hf)

theorem value_eq {r : ValueId} (hr : r.index < f.valueTypes.size) :
    (siteOf lir f).value r = f.locals.size + r.index :=
  value_eq_of_lt (localCount_lt hw hf) hr

theorem saved?_eq {i : Nat} (h : (siteOf lir f).saved? = some i) :
    i = f.locals.size + f.valueTypes.size ∧ i < (siteOf lir f).localCount :=
  saved?_eq_of_lt (localCount_lt hw hf) h

end Site

/-- The locals of a frame hold the values and locals of an activation. -/
structure LocalsShow (lir : Lir.Module) (A : AddressMap) (a : Activation) (locals : List Val) : Prop where
  function_eq : lir.function? a.function.id = some a.function
  length_eq : locals.length = (siteOf lir a.function).localCount
  values_size : a.values.size = a.function.valueTypes.size
  locals_size : a.locals.size = a.function.locals.size
  value : ∀ r v, a.value r = .ok v →
    ∃ x, locals[a.function.locals.size + r.index]? = some x ∧ Shows A v x
  «local» : ∀ l v, a.local l = .ok v → ∃ x, locals[l.index]? = some x ∧ Shows A v x

namespace LocalsShow

variable {lir : Lir.Module} {w : Module} {A B : AddressMap} {a : Activation} {locals : List Val}

theorem mono (h : LocalsShow lir A a locals) (hAB : A.Extends B) : LocalsShow lir B a locals := by
  refine ⟨h.function_eq, h.length_eq, h.values_size, h.locals_size, ?_, ?_⟩
  · intro r v hv
    obtain ⟨x, hx, hshows⟩ := h.value r v hv
    exact ⟨x, hx, hshows.mono hAB⟩
  · intro l v hv
    obtain ⟨x, hx, hshows⟩ := h.local l v hv
    exact ⟨x, hx, hshows.mono hAB⟩

theorem withBlocks (h : LocalsShow lir A a locals) (blocks : List Block) :
    LocalsShow lir A { a with blocks } locals :=
  ⟨h.function_eq, h.length_eq, h.values_size, h.locals_size, h.value, h.local⟩

theorem withOwned (h : LocalsShow lir A a locals) (owned : List ObjectId) :
    LocalsShow lir A { a with owned } locals :=
  ⟨h.function_eq, h.length_eq, h.values_size, h.locals_size, h.value, h.local⟩

/-- What code finds in the local of a value. -/
theorem get (hw : Ready lir w) (h : LocalsShow lir A a locals) {r : ValueId} {v : Value}
    (hv : a.value r = .ok v) :
    ∃ x, locals[(siteOf lir a.function).value r]? = some x ∧ Shows A v x := by
  have hlt : r.index < a.values.size := (Array.getElem?_eq_some_iff.1 (Activation.value_eq_ok.1 hv)).1
  rw [Site.value_eq hw h.function_eq (h.values_size ▸ hlt)]
  exact h.value r v hv

theorem ints (hw : Ready lir w) (h : LocalsShow lir A a locals) :
    IntsIn (siteOf lir a.function) a locals := by
  intro r x hx
  obtain ⟨y, hy, hshows⟩ := h.get hw hx
  cases hshows
  exact hy

/-- A value is written. -/
theorem define (hw : Ready lir w) (h : LocalsShow lir A a locals) {dest : ValueId}
    (hd : dest.index < a.function.valueTypes.size) {v : Value} {x : Val} (hx : Shows A v x) :
    LocalsShow lir A (a.define dest v) (locals.set ((siteOf lir a.function).value dest) x) := by
  have hlt := Site.value_lt lir hd
  rw [Site.value_eq hw h.function_eq hd]
  refine ⟨h.function_eq, by simp [h.length_eq, Activation.define], by simp [Activation.define, h.values_size],
    h.locals_size, ?_, ?_⟩
  · intro r w hw
    by_cases hr : r = dest
    · subst hr
      cases Activation.eq_of_value_define hw
      exact ⟨x, by simp [Activation.define, h.length_eq, hlt], hx⟩
    · rw [Activation.value_define_of_ne hr] at hw
      have hne : a.function.locals.size + dest.index ≠ a.function.locals.size + r.index := by
        intro heq
        exact hr (congrArg ValueId.mk (by omega))
      obtain ⟨y, hy, hshows⟩ := h.value r w hw
      exact ⟨y, (List.getElem?_set_ne hne).trans hy, hshows⟩
  · intro l w hl
    have hl : a.local l = .ok w := hl
    have hlt' : l.index < a.locals.size := (Array.getElem?_eq_some_iff.1 (Activation.local_eq_ok.1 hl)).1
    have hne : a.function.locals.size + dest.index ≠ l.index := by
      have := h.locals_size
      omega
    obtain ⟨y, hy, hshows⟩ := h.local l w hl
    exact ⟨y, (List.getElem?_set_ne hne).trans hy, hshows⟩

/-- A local is written. -/
theorem assign (h : LocalsShow lir A a locals) {l : LocalId} (hl : l.index < a.locals.size) {v : Value}
    {x : Val} (hx : Shows A v x) : LocalsShow lir A (a.assign l v) (locals.set l.index x) := by
  have hsize := h.locals_size
  refine ⟨h.function_eq, by simp [h.length_eq, Activation.assign], h.values_size,
    by simp [Activation.assign, h.locals_size], ?_, ?_⟩
  · intro r w hw
    have hw : a.value r = .ok w := hw
    have hne : l.index ≠ a.function.locals.size + r.index := by omega
    obtain ⟨y, hy, hshows⟩ := h.value r w hw
    exact ⟨y, (List.getElem?_set_ne hne).trans hy, hshows⟩
  · intro l' w hw
    by_cases heq : l' = l
    · subst heq
      rw [Activation.local_assign_self hl] at hw
      cases hw
      have hlt : l'.index < locals.length := by
        rw [h.length_eq]
        simp only [Site.localCount, siteOf_function]
        omega
      exact ⟨x, by simp [hlt], hx⟩
    · have hne : l.index ≠ l'.index := fun e => heq (congrArg LocalId.mk e.symm)
      rcases Activation.local_assign hw with ⟨rfl, -⟩ | hw
      · exact absurd rfl heq
      · obtain ⟨y, hy, hshows⟩ := h.local l' w hw
        exact ⟨y, (List.getElem?_set_ne hne).trans hy, hshows⟩

/-- The local after those of the values is written. -/
theorem setSaved (h : LocalsShow lir A a locals) (x : Val) :
    LocalsShow lir A a (locals.set (a.function.locals.size + a.function.valueTypes.size) x) := by
  have hvalues := h.values_size
  have hlocals := h.locals_size
  refine ⟨h.function_eq, by simp [h.length_eq], h.values_size, h.locals_size, ?_, ?_⟩
  · intro r v hv
    have hlt : r.index < a.values.size := (Array.getElem?_eq_some_iff.1 (Activation.value_eq_ok.1 hv)).1
    obtain ⟨y, hy, hshows⟩ := h.value r v hv
    exact ⟨y, (List.getElem?_set_ne (by omega)).trans hy, hshows⟩
  · intro l v hl
    have hlt : l.index < a.locals.size := (Array.getElem?_eq_some_iff.1 (Activation.local_eq_ok.1 hl)).1
    obtain ⟨y, hy, hshows⟩ := h.local l v hl
    exact ⟨y, (List.getElem?_set_ne (by omega)).trans hy, hshows⟩

end LocalsShow

/-! ## The stack -/

/-- The stack objects of an activation lie above the stack pointer, as it is while the activation is active.
The activation sets the stack pointer back to what it was at its start: that is kept in a local, or the
stack pointer is still there. -/
structure Keeps (lir : Lir.Module) (A : AddressMap) (a : Activation) (locals : List Val) (low start : Nat) :
    Prop where
  le : low ≤ start
  start_le : start ≤ 65536
  owned : ∀ o ∈ a.owned, ∃ p, A.objects[o.index]? = some p ∧ low ≤ p
  saved : ∀ i, (siteOf lir a.function).saved? = some i → locals[i]? = some (.i32 (BitVec.ofNat 32 start))
  unsaved : (siteOf lir a.function).saved? = none → start = low

namespace Keeps

variable {lir : Lir.Module} {w : Module} {A B : AddressMap} {a : Activation} {locals : List Val}
  {low start : Nat}

theorem mono (h : Keeps lir A a locals low start) (hAB : A.Extends B) : Keeps lir B a locals low start := by
  refine ⟨h.le, h.start_le, fun o ho => ?_, h.saved, h.unsaved⟩
  obtain ⟨p, hp, hle⟩ := h.owned o ho
  exact ⟨p, hAB.address hp, hle⟩

/-- Another local than the last one is written. -/
theorem set (hw : Ready lir w) (hf : lir.function? a.function.id = some a.function)
    (h : Keeps lir A a locals low start) {i : Nat} (hi : i < a.function.locals.size + a.function.valueTypes.size)
    (x : Val) : Keeps lir A a (locals.set i x) low start := by
  refine ⟨h.le, h.start_le, h.owned, fun j hj => ?_, h.unsaved⟩
  have hne : i ≠ j := by
    have := (Site.saved?_eq hw hf hj).1
    omega
  exact (List.getElem?_set_ne hne).trans (h.saved j hj)

end Keeps

/-! ## Frames that wait -/

/-- The code that is left after a call: what is left of the blocks, or the way there out of the tests for
the function of a closure. -/
inductive Resumes (s : Site) (blocks : List Block) : List Instr → List Label → Prop
  | direct {code : List Instr} {labels : List Label} : BlocksCode s blocks code labels →
      Resumes s blocks code labels
  | closure {code : List Instr} {labels : List Label} {label : Label} : BlocksCode s blocks code labels →
      Resumes s blocks [.plain (.br 1)] (label :: ⟨0, [], code, []⟩ :: labels)

theorem Resumes.comes {s : Site} {blocks : List Block} {code : List Instr} {labels : List Label}
    (h : Resumes s blocks code labels) {host : Host} {m : Module} {P : State → Prop} {locals : List Val}
    {arity : Nat} {callers : List Frame} {inst : Instance}
    (k : ∀ code labels, BlocksCode s blocks code labels →
      State.Comes host m P ⟨⟨locals, [], code, labels, arity⟩, callers, inst⟩) :
    State.Comes host m P ⟨⟨locals, [], code, labels, arity⟩, callers, inst⟩ := by
  cases h with
  | direct h => exact k _ _ h
  | closure h => exact .br rfl (k _ _ h)

/-- The frames that wait show the activations that wait. The first of them waits for a result for `dest`, if
there is one, and its stack pointer is `low`. -/
inductive Waiting (lir : Lir.Module) (A : AddressMap) :
    Nat → Option ValueId → Bool → List Activation → List Frame → Prop
  | nil {low : Nat} {dest : Option ValueId} {returns : Bool} : Waiting lir A low dest returns [] []
  | cons {low start : Nat} {dest : Option ValueId} {returns : Bool} {a : Activation} {locals : List Val}
      {code : List Instr} {labels : List Label} {waiting : List Activation} {frames : List Frame} :
      LocalsShow lir A a locals → Keeps lir A a locals low start →
      Resumes (siteOf lir a.function) a.blocks code labels →
      (∀ d, dest = some d → d.index < a.function.valueTypes.size) →
      Waiting lir A start a.dest a.function.ret.isSome waiting frames →
      Waiting lir A low dest returns (a :: waiting)
        (⟨locals, [], (siteOf lir a.function).finishCall dest returns ++ code, labels,
          a.function.ret.toList.length⟩ :: frames)

namespace Waiting

variable {lir : Lir.Module} {A B : AddressMap} {low : Nat} {dest : Option ValueId} {returns : Bool}
  {waiting : List Activation} {frames : List Frame}

theorem mono (h : Waiting lir A low dest returns waiting frames) (hAB : A.Extends B) :
    Waiting lir B low dest returns waiting frames := by
  induction h with
  | nil => exact .nil
  | cons hlocals hkeeps hresumes hdest _ ih =>
    exact .cons (hlocals.mono hAB) (hkeeps.mono hAB) hresumes hdest ih

/-- The stack objects of activations that wait lie above the stack pointer. -/
theorem low_le (h : Waiting lir A low dest returns waiting frames) {o : ObjectId} (ho : o ∈ reachOf waiting)
    {p : Nat} (hp : A.objects[o.index]? = some p) : low ≤ p := by
  induction h with
  | nil => simp [reachOf] at ho
  | cons _ hkeeps _ _ _ ih =>
    rw [Machine.reachOf_cons, List.mem_append] at ho
    rcases ho with ho | ho
    · obtain ⟨p', hp', hle⟩ := hkeeps.owned o ho
      rw [hp] at hp'
      cases hp'
      exact hle
    · exact Nat.le_trans hkeeps.le (ih ho)

end Waiting

/-! ## States -/

/-- The state of generated code shows the state of the machine, apart from the code that is left. -/
structure Shown (lir : Lir.Module) (A : AddressMap) (heap stack start : Nat) (a : Activation)
    (waiting : List Activation) (s : Store) (locals : List Val) (frames : List Frame) (inst : Instance) :
    Prop where
  placed : Placed lir A s inst heap stack
  shows : LocalsShow lir A a locals
  keeps : Keeps lir A a locals stack start
  callers : Waiting lir A start a.dest a.function.ret.isSome waiting frames
  owned : ∀ (o : ObjectId) object, s.objects[o.index]? = some object → object.live = true →
    object.kind = .stack → o ∈ reachOf (a :: waiting)

/-- The state of generated code shows the state of the machine. -/
inductive Sim (lir : Lir.Module) : Machine.State → State → Prop
  | mk {A : AddressMap} {heap stack start : Nat} {a : Activation} {c : CallStack} {s : Store}
      {locals : List Val} {frames : List Frame} {inst : Instance} {code : List Instr} {labels : List Label} :
      Shown lir A heap stack start a c.waiting s locals frames inst →
      BlocksCode (siteOf lir a.function) a.blocks code labels →
      Sim lir ⟨a, c, s⟩ ⟨⟨locals, [], code, labels, a.function.ret.toList.length⟩, frames, inst⟩

namespace Shown

variable {lir : Lir.Module} {w : Module} {A : AddressMap} {heap stack start : Nat} {a : Activation}
  {waiting : List Activation} {s : Store} {locals : List Val} {frames : List Frame} {inst : Instance}

theorem withBlocks (h : Shown lir A heap stack start a waiting s locals frames inst) (blocks : List Block) :
    Shown lir A heap stack start { a with blocks } waiting s locals frames inst :=
  ⟨h.placed, h.shows.withBlocks blocks, ⟨h.keeps.le, h.keeps.start_le, h.keeps.owned, h.keeps.saved,
    h.keeps.unsaved⟩, h.callers, h.owned⟩

theorem define (hw : Ready lir w) (h : Shown lir A heap stack start a waiting s locals frames inst)
    {dest : ValueId} (hd : dest.index < a.function.valueTypes.size) {v : Value} {x : Val}
    (hx : Shows A v x) :
    Shown lir A heap stack start (a.define dest v) waiting s
      (locals.set ((siteOf lir a.function).value dest) x) frames inst := by
  refine ⟨h.placed, h.shows.define hw hd hx, ?_, h.callers, h.owned⟩
  have hkeeps := h.keeps.set hw h.shows.function_eq (i := (siteOf lir a.function).value dest) ?_ x
  · exact ⟨hkeeps.le, hkeeps.start_le, hkeeps.owned, hkeeps.saved, hkeeps.unsaved⟩
  · rw [Site.value_eq hw h.shows.function_eq hd]
    omega

theorem assign (hw : Ready lir w) (h : Shown lir A heap stack start a waiting s locals frames inst)
    {l : LocalId} (hl : l.index < a.locals.size) {v : Value} {x : Val} (hx : Shows A v x) :
    Shown lir A heap stack start (a.assign l v) waiting s (locals.set l.index x) frames inst := by
  refine ⟨h.placed, h.shows.assign hl hx, ?_, h.callers, h.owned⟩
  have hkeeps := h.keeps.set hw h.shows.function_eq (i := l.index) ?_ x
  · exact ⟨hkeeps.le, hkeeps.start_le, hkeeps.owned, hkeeps.saved, hkeeps.unsaved⟩
  · have := h.shows.locals_size
    omega

end Shown

end StaticChain.Wasm

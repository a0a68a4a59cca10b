import Mathlib.Data.Set.Basic
import StaticChain.Proofs.Assigning
import StaticChain.Proofs.WellFormed

/-!
# Values are defined before they are used

An instruction may use what earlier instructions of its body define and what is known where the body starts; a
loop's condition and body know what its header defines, and what comes after a branch or a loop knows nothing
from inside it (`Lir.Scoped`). Code is written from left to right, so each piece is scoped wherever the frame
and the context of its activation are known, and gives values that are known after it (`Lir.Computes`). With
the numbering of values this is single assignment (`Lir.Function.SingleAssignment`), which
`singleAssignment_of_lowerFunction` gives for every lowered function, whatever captures, layouts and plan its
nesting has.
-/

namespace StaticChain

open Lir (ValueId LocalId StructId Inst Ty)

namespace Lir

/-- The values that an instruction uses. -/
def Inst.uses : Inst → List ValueId
  | .const _ _ => []
  | .null _ => []
  | .binary _ _ lhs rhs => [lhs, rhs]
  | .unary _ _ operand => [operand]
  | .localGet _ _ => []
  | .localSet _ value => [value]
  | .alloc _ _ _ => []
  | .fieldAddr _ base _ _ => [base]
  | .load _ addr _ => [addr]
  | .store addr value _ => [addr, value]
  | .call _ _ args => args
  | .makeClosure _ _ context => [context]
  | .callClosure _ closure args _ => closure :: args
  | .branch condition _ _ => [condition]
  | .loop _ condition _ => [condition]
  | .ret value => value.toList
  | .unreachable => []

/-- The local that an instruction reads or sets. -/
def Inst.local? : Inst → Option LocalId
  | .localGet _ source => some source
  | .localSet target _ => some target
  | _ => none

/-- The values that the instructions of a body define, without those of inner bodies. -/
def defs (code : List Inst) : Set ValueId := {r | ∃ inst ∈ code, inst.dest? = some r}

/-- Code in which each value is known where it is used, if some values are known at the start: an earlier
instruction of the same body or of one around it defines it or, inside a loop, the header. The locals that are
read and set are among the first ones. -/
inductive Scoped (locals : Nat) : Set ValueId → List Inst → Prop
  | nil {known : Set ValueId} : Scoped locals known []
  | cons {known : Set ValueId} {inst : Inst} {rest : List Inst} : inst.withNested = [inst] →
      (∀ r ∈ inst.uses, r ∈ known) → (∀ x, inst.local? = some x → x.index < locals) →
      Scoped locals (known ∪ {r | inst.dest? = some r}) rest → Scoped locals known (inst :: rest)
  | branch {known : Set ValueId} {condition : ValueId} {thenBody elseBody rest : List Inst} :
      condition ∈ known → Scoped locals known thenBody → Scoped locals known elseBody →
      Scoped locals known rest → Scoped locals known (.branch condition thenBody elseBody :: rest)
  | loop {known : Set ValueId} {condition : ValueId} {header body rest : List Inst} :
      Scoped locals known header → condition ∈ known ∪ defs header →
      Scoped locals (known ∪ defs header) body → Scoped locals known rest →
      Scoped locals known (.loop header condition body :: rest)

theorem defs_nil : defs [] = ∅ := by
  ext r
  simp [defs]

theorem defs_cons (inst : Inst) (code : List Inst) : defs (inst :: code) = {r | inst.dest? = some r} ∪ defs code := by
  ext r
  simp [defs]

/-- An instruction that writes nothing defines nothing. -/
theorem defs_silent {inst : Inst} (code : List Inst) (hd : inst.dest? = none := by rfl) :
    defs (inst :: code) = defs code := by
  simp [defs_cons, hd]

theorem mem_writes_of_mem_defs {code : List Inst} {r : ValueId} (h : r ∈ defs code) : r ∈ writes code := by
  obtain ⟨inst, hmem, hd⟩ := h
  obtain ⟨before, after, rfl⟩ := List.append_of_mem hmem
  have hself : inst ∈ inst.withNested := by cases inst <;> simp [Inst.withNested]
  refine List.mem_filterMap.2 ⟨inst, ?_, hd⟩
  simp [allInsts_append, allInsts, hself]

namespace Scoped

variable {k : Nat} {known : Set ValueId} {c₁ c₂ code : List Inst}

theorem append (h₁ : Scoped k known c₁) (h₂ : Scoped k (known ∪ defs c₁) c₂) : Scoped k known (c₁ ++ c₂) := by
  induction h₁ with
  | nil => simpa [defs_nil] using h₂
  | cons hi huses hlocal _ ih =>
    rw [defs_cons, ← Set.union_assoc] at h₂
    exact .cons hi huses hlocal (ih h₂)
  | branch hc hthen helse _ _ _ ih =>
    rw [defs_silent] at h₂
    exact .branch hc hthen helse (ih h₂)
  | loop hheader hc hbody _ _ _ ih =>
    rw [defs_silent] at h₂
    exact .loop hheader hc hbody (ih h₂)

/-- What is used anywhere in the code is known at the start, or the code writes it. -/
theorem uses_mem {all : Set ValueId} (h : Scoped k known code) (hknown : known ⊆ all)
    (hwrites : ∀ r ∈ writes code, r ∈ all) : ∀ inst ∈ allInsts code, ∀ r ∈ inst.uses, r ∈ all := by
  induction h with
  | nil => simp [allInsts]
  | cons hi huses _ _ ih =>
    rw [writes_cons hi, List.forall_mem_append] at hwrites
    simp only [allInsts, hi, List.singleton_append, List.forall_mem_cons]
    refine ⟨fun r hr => hknown (huses r hr), ih (Set.union_subset hknown fun r hd => ?_) hwrites.2⟩
    exact hwrites.1 r (Option.mem_toList.2 hd)
  | branch hc _ _ _ ih₁ ih₂ ih =>
    rw [writes_branch, writes_append, writes_append, List.forall_mem_append, List.forall_mem_append] at hwrites
    obtain ⟨hwrites₁, hwrites₂, hwrites⟩ := hwrites
    simp only [allInsts, Inst.withNested, List.cons_append, List.forall_mem_cons, List.forall_mem_append]
    exact ⟨List.forall_mem_singleton.2 (hknown hc), ⟨ih₁ hknown hwrites₁, ih₂ hknown hwrites₂⟩, ih hknown hwrites⟩
  | loop _ hc _ _ ih₁ ih₂ ih =>
    rw [writes_loop, writes_append, writes_append, List.forall_mem_append, List.forall_mem_append] at hwrites
    obtain ⟨hwrites₁, hwrites₂, hwrites⟩ := hwrites
    have hheader := Set.union_subset hknown fun r hr => hwrites₁ r (mem_writes_of_mem_defs hr)
    simp only [allInsts, Inst.withNested, List.cons_append, List.forall_mem_cons, List.forall_mem_append]
    exact ⟨List.forall_mem_singleton.2 (hheader hc), ⟨ih₁ hknown hwrites₁, ih₂ hheader hwrites₂⟩, ih hknown hwrites⟩

/-- The locals that are read or set anywhere in the code are among the first ones. -/
theorem local_lt (h : Scoped k known code) : ∀ inst ∈ allInsts code, ∀ x, inst.local? = some x →
    x.index < k := by
  induction h with
  | nil => simp [allInsts]
  | cons hi _ hlocal _ ih =>
    simp only [allInsts, hi, List.singleton_append, List.forall_mem_cons]
    exact ⟨hlocal, ih⟩
  | branch _ _ _ _ ih₁ ih₂ ih =>
    simp only [allInsts, Inst.withNested, List.cons_append, List.forall_mem_cons, List.forall_mem_append]
    exact ⟨by simp [Inst.local?], ⟨ih₁, ih₂⟩, ih⟩
  | loop _ _ _ _ ih₁ ih₂ ih =>
    simp only [allInsts, Inst.withNested, List.cons_append, List.forall_mem_cons, List.forall_mem_append]
    exact ⟨by simp [Inst.local?], ⟨ih₁, ih₂⟩, ih⟩

end Scoped

/-- Code that is scoped, and after which some results are known. -/
structure Computes (locals : Nat) (known : Set ValueId) (code : List Inst) (rs : List ValueId) : Prop where
  inScope : Scoped locals known code
  results_known : ∀ r ∈ rs, r ∈ known ∪ defs code

namespace Computes

variable {k : Nat} {known : Set ValueId} {inst : Inst} {condition : ValueId} {c₁ c₂ code : List Inst}
  {rs rs₁ rs₂ : List ValueId}

theorem nil (h : ∀ r ∈ rs, r ∈ known) : Computes k known [] rs := ⟨.nil, fun r hr => .inl (h r hr)⟩

/-- Code goes on where the results of the code before it are known, with all that was known there. -/
theorem andThen (h₁ : Computes k known c₁ rs₁)
    (h₂ : ∀ {known' : Set ValueId}, known ⊆ known' → (∀ r ∈ rs₁, r ∈ known') → Computes k known' c₂ rs₂) :
    Computes k known (c₁ ++ c₂) rs₂ := by
  obtain ⟨hscoped, hknown⟩ := h₂ Set.subset_union_left h₁.results_known
  refine ⟨h₁.inScope.append hscoped, fun r hr => ?_⟩
  rcases hknown r hr with (h | ⟨inst, hmem, hd⟩) | ⟨inst, hmem, hd⟩
  · exact .inl h
  · exact .inr ⟨inst, List.mem_append_left _ hmem, hd⟩
  · exact .inr ⟨inst, List.mem_append_right _ hmem, hd⟩

/-- A single instruction makes its value known. -/
theorem single (huses : ∀ r ∈ inst.uses, r ∈ known) (hi : inst.withNested = [inst] := by rfl)
    (hlocal : ∀ x, inst.local? = some x → x.index < k := by simp [Inst.local?]) :
    Computes k known [inst] inst.dest?.toList :=
  ⟨.cons hi huses hlocal .nil, fun _ hr => .inr ⟨inst, by simp, Option.mem_toList.1 hr⟩⟩

/-- Results may be dropped. -/
theorem drop (h : Computes k known code rs) : Computes k known code [] := ⟨h.inScope, nofun⟩

/-- What was known at the start is known at the end. -/
theorem keep (h : Computes k known code rs₂) (hknown : ∀ r ∈ rs₁, r ∈ known) :
    Computes k known code (rs₁ ++ rs₂) :=
  ⟨h.inScope, List.forall_mem_append.2 ⟨fun r hr => .inl (hknown r hr), h.results_known⟩⟩

/-- An instruction comes first. -/
theorem cons (huses : ∀ r ∈ inst.uses, r ∈ known)
    (h : ∀ {known' : Set ValueId}, known ⊆ known' → (∀ r ∈ inst.dest?.toList, r ∈ known') →
      Computes k known' code rs)
    (hi : inst.withNested = [inst] := by rfl) (hlocal : ∀ x, inst.local? = some x → x.index < k := by simp [Inst.local?]) :
    Computes k known (inst :: code) rs :=
  (single huses hi hlocal).andThen h

theorem branch (hc : condition ∈ known) (h₁ : Computes k known c₁ []) (h₂ : Computes k known c₂ [])
    (h : Computes k known code rs) : Computes k known (.branch condition c₁ c₂ :: code) rs :=
  ⟨.branch hc h₁.inScope h₂.inScope h.inScope, by rw [defs_silent]; exact h.results_known⟩

theorem loop (h₁ : Computes k known c₁ [condition])
    (h₂ : ∀ {known' : Set ValueId}, known ⊆ known' → Computes k known' c₂ []) :
    Computes k known [.loop c₁ condition c₂] [] :=
  ⟨.loop h₁.inScope (h₁.results_known _ (by simp)) (h₂ Set.subset_union_left).inScope .nil, by simp⟩

theorem localGet {dest : ValueId} {x : LocalId} (hx : x.index < k) :
    Computes k known [.localGet dest x] [dest] := by
  refine .single nofun rfl ?_
  rintro _ ⟨⟩
  exact hx

theorem localSet {value : ValueId} {x : LocalId} (hx : x.index < k) (hr : value ∈ known) :
    Computes k known [.localSet x value] [] := by
  refine .single (List.forall_mem_singleton.2 hr) rfl ?_
  rintro _ ⟨⟩
  exact hx

/-- A slot is addressed and read. -/
theorem read {addr dest base : ValueId} {struct : StructId} {slot : Nat} {ty : Ty} (hb : base ∈ known) :
    Computes k known [.fieldAddr addr base struct slot, .load dest addr ty] [dest] :=
  .cons (List.forall_mem_singleton.2 hb) fun _ h => .single h

/-- A slot is addressed and written. -/
theorem write {addr base value : ValueId} {struct : StructId} {slot : Nat} {ty : Ty} (hb : base ∈ known)
    (hv : value ∈ known) : Computes k known [.fieldAddr addr base struct slot, .store addr value ty] [] :=
  .cons (List.forall_mem_singleton.2 hb) fun hknown h =>
    .single (List.forall_mem_cons.2 ⟨h addr (by simp [Inst.dest?]), List.forall_mem_singleton.2 (hknown hv)⟩)

end Computes

/-- Single assignment. Each value that the function numbers is written by one instruction and no other value
occurs, uses come after definitions, and locals are those that the function declares. -/
structure Function.SingleAssignment (f : Function) : Prop where
  definer : ∀ r : ValueId, r.index < f.valueTypes.size → ∃ inst, f.definers r = [inst]
  value_lt : ∀ inst ∈ allInsts f.body, ∀ r, inst.dest? = some r ∨ r ∈ inst.uses → r.index < f.valueTypes.size
  inScope : Scoped f.locals.size ∅ f.body
  local_lt : ∀ inst ∈ allInsts f.body, ∀ x, inst.local? = some x → x.index < f.locals.size

end Lir

open Lir (Scoped Computes)

/-! ## Chains, contexts and objects -/

namespace Vantage

/-- The frame and the context of an activation, where it has them, are known. -/
structure KnownIn (v : Vantage) (known : Set ValueId) : Prop where
  frame : ∀ r ∈ v.frame.toList, r ∈ known
  incoming : ∀ r ∈ v.incoming.toList, r ∈ known

theorem KnownIn.mono {v : Vantage} {known known' : Set ValueId} (h : v.KnownIn known) (hknown : known ⊆ known') :
    v.KnownIn known' :=
  ⟨fun r hr => hknown (h.frame r hr), fun r hr => hknown (h.incoming r hr)⟩

theorem KnownIn.start {v : Vantage} {known : Set ValueId} (h : v.KnownIn known) {start : Chain.Start} {r : ValueId}
    (hstart : Nesting.chainStart v start = .ok r) : r ∈ known := by
  obtain ⟨rfl, hframe⟩ | ⟨rfl, hincoming⟩ := Nesting.chainStart_eq_ok.1 hstart
  · exact h.frame r (by simp [hframe])
  · exact h.incoming r (by simp [hincoming])

end Vantage

section

variable {n : Nesting} {s : Scope} {v : Vantage} {σ σ' : Regs} {code : List Inst} {k : Nat}
  {known : Set ValueId}

theorem HopsCode.computes {pointer r : ValueId} {hops : List Chain.Hop} (h : HopsCode σ pointer hops code r σ')
    (hp : pointer ∈ known) : Computes k known code [r] := by
  induction h generalizing known with
  | nil => exact .nil (List.forall_mem_singleton.2 hp)
  | cons _ ih => exact (Computes.read hp).andThen fun _ hr => ih (hr _ List.mem_cons_self)

variable (hv : v.KnownIn known)
include hv

theorem ChainCode.computes {chain : Chain} {r : ValueId} (h : ChainCode v chain σ code r σ') :
    Computes k known code [r] := by
  cases h with | mk hstart h => exact h.computes (hv.start hstart)

theorem ContextCode.computes {context : ContextArgument} {hidden : Option ValueId}
    (h : ContextCode v context σ code hidden σ') : Computes k known code hidden.toList := by
  cases h with
  | none => exact .nil nofun
  | null => exact .single nofun
  | chain h => exact h.computes hv

theorem ClosureContextCode.computes {context : ContextArgument} {r : ValueId}
    (h : ClosureContextCode v context σ code r σ') : Computes k known code [r] := by
  cases h with
  | none => exact .single nofun
  | null => exact .single nofun
  | chain h => exact h.computes hv

omit hv

theorem StoresCode.computes {struct : StructId} {object : ValueId} {stores : List SlotStore}
    (h : StoresCode struct object σ stores code σ') (ho : object ∈ known)
    (hvalues : ∀ store ∈ stores, store.value ∈ known) : Computes k known code [object] := by
  induction h generalizing known with
  | nil => exact .nil (List.forall_mem_singleton.2 ho)
  | cons _ ih =>
    obtain ⟨hvalue, hvalues⟩ := List.forall_mem_cons.1 hvalues
    exact (Computes.write ho hvalue).andThen fun hknown _ => ih (hknown ho) fun store hs => hknown (hvalues store hs)

theorem linkStores_values_known {slot : Option Nat} {link : Option ValueId} (h : ∀ r ∈ link.toList, r ∈ known) :
    ∀ store ∈ linkStores slot link, store.value ∈ known := by
  cases slot <;> cases link <;> simp_all [linkStores]

theorem InstanceCode.computes {aggregate : DeclId} {outer : Option ValueId} {fields : List ValueId} {r : ValueId}
    (h : InstanceCode n aggregate outer fields σ code r σ') (ho : ∀ r ∈ outer.toList, r ∈ known)
    (hf : ∀ r ∈ fields, r ∈ known) : Computes k known code [r] := by
  cases h with | mk _ _ _ h =>
  refine .cons nofun fun hknown hr => h.computes (hr _ List.mem_cons_self) ?_
  refine List.forall_mem_append.2 ⟨linkStores_values_known fun r hr => hknown (ho r hr), ?_⟩
  rw [List.forall_mem_map]
  exact fun entry hmem => hknown (hf _ (List.of_mem_zip hmem).2)

/-! ## Variables -/

theorem ReadCode.computes {x : VarId} {r : ValueId} (h : ReadCode s v x σ code r σ')
    (hv : v.KnownIn known) (hk : σ'.locals.size ≤ k) : Computes k known code [r] := by
  cases h with
  | «local» _ _ hty => exact .localGet (Nat.lt_of_lt_of_le (Array.getElem?_eq_some_iff.1 hty).1 hk)
  | slot _ h => exact (h.computes hv).andThen fun _ hr => .read (hr _ List.mem_cons_self)

theorem WriteCode.computes {x : VarId} {r : ValueId} (h : WriteCode s v r x σ code σ') (hr : r ∈ known)
    (hv : v.KnownIn known) (hs : LocalsBelow k s.locals) : Computes k known code [] := by
  cases h with
  | «local» _ hx => exact .localSet (hs _ (mem_of_lookup hx)) hr
  | slot _ h => exact (h.computes hv).andThen fun hknown hc => .write (hc _ List.mem_cons_self) (hknown hr)

/-! ## Expressions -/

mutual

theorem ExprCode.computes {expr : Expr} {σ σ' : Regs} {code : List Inst} {r : Option ValueId} {known : Set ValueId}
    (hv : v.KnownIn known) :
    ExprCode s v expr σ code r σ' → σ'.locals.size ≤ k → Computes k known code r.toList
  | .int, _ => .single nofun
  | .bool, _ => .single nofun
  | .var h, hk => h.computes hv hk
  | .strict _ hl hr, hk =>
    (hl.computes hv (Nat.le_trans hr.le.locals hk)).andThen fun hknown l =>
      (hr.computes (hv.mono hknown) hk).andThen fun hknown' r =>
        .single (List.forall_mem_cons.2 ⟨hknown' (l _ List.mem_cons_self), r⟩)
  -- The result of a short-circuit operator leaves the branch in a local, as no value from inside is known after it.
  | .conjunction _ hl hr _, hk => by
    have hlt := Nat.lt_of_lt_of_le (hl.le.trans hr.le).nextLocal_lt hk
    refine (hl.computes hv (Nat.le_trans hr.le.locals hk)).andThen fun hknown l => ?_
    refine .branch (l _ List.mem_cons_self) ?_ ?_ (.localGet hlt)
    · exact (hr.computes (hv.mono hknown) hk).andThen fun _ r => .localSet hlt (r _ List.mem_cons_self)
    · exact .cons nofun fun _ r => .localSet hlt (r _ List.mem_cons_self)
  | .disjunction _ hl hr _, hk => by
    have hlt := Nat.lt_of_lt_of_le (hl.le.trans ((Regs.le_value _ _).trans hr.le)).nextLocal_lt hk
    refine (hl.computes hv (Nat.le_trans hr.le.locals hk)).andThen fun hknown l => ?_
    refine .branch (l _ List.mem_cons_self) ?_ ?_ (.localGet hlt)
    · exact .cons nofun fun _ r => .localSet hlt (r _ List.mem_cons_self)
    · exact (hr.computes (hv.mono hknown) hk).andThen fun _ r => .localSet hlt (r _ List.mem_cons_self)
  | .unary h, hk => (h.computes hv hk).andThen fun _ r => .single r
  | .call _ hc hargs _ _, hk =>
    (hc.computes hv).andThen fun hknown hidden =>
      (hargs.computes (hv.mono hknown) (Nat.le_trans (Regs.le_result _ _).locals hk)).andThen
        fun hknown' args => .single (List.forall_mem_append.2 ⟨fun r h => hknown' (hidden r h), args⟩)
  | .methodCall hr hargs _ _, hk =>
    (hr.computes hv (Nat.le_trans (hargs.le.result _).locals hk)).andThen fun hknown receiver =>
      (hargs.computes (hv.mono hknown) (Nat.le_trans (Regs.le_result _ _).locals hk)).andThen
        fun hknown' args => .single (List.forall_mem_cons.2 ⟨hknown' (receiver _ List.mem_cons_self), args⟩)
  | .new hargs _ hc hi, hk =>
    (hargs.computes hv (Nat.le_trans (hc.le.trans hi.le).locals hk)).andThen fun hknown args =>
      (hc.computes (hv.mono hknown)).andThen fun hknown' outer =>
        hi.computes outer fun r h => hknown' (args r h)
  | .fieldGet h _, hk => (h.computes hv hk).andThen fun _ r => .read (r _ List.mem_cons_self)
  | .this _ h, _ => h.computes hv
  | .functionRef _ h _, _ => (h.computes hv).andThen fun _ r => .single r
  | .callValue _ _ hc hargs, hk =>
    (hc.computes hv (Nat.le_trans (hargs.le.result _).locals hk)).andThen fun hknown callee =>
      (hargs.computes (hv.mono hknown) (Nat.le_trans (Regs.le_result _ _).locals hk)).andThen
        fun hknown' args => .single (List.forall_mem_cons.2 ⟨hknown' (callee _ List.mem_cons_self), args⟩)

theorem ExprsCode.computes {exprs : List Expr} {σ σ' : Regs} {code : List Inst} {rs : List ValueId}
    {known : Set ValueId} (hv : v.KnownIn known) :
    ExprsCode s v exprs σ code rs σ' → σ'.locals.size ≤ k → Computes k known code rs
  | .nil, _ => .nil nofun
  | .cons h hs, hk =>
    (h.computes hv (Nat.le_trans hs.le.locals hk)).andThen fun hknown r =>
      (hs.computes (hv.mono hknown) hk).keep r

end

/-! ## Statements -/

mutual

theorem StmtCode.computes {stmt : Stmt} {σ σ' : Regs} {code : List Inst} {known : Set ValueId}
    (hs : LocalsBelow k s.locals) (hv : v.KnownIn known) : StmtCode s v stmt σ code σ' → σ'.locals.size ≤ k → Computes k known code []
  | .letVar h hw, hk =>
    (h.computes hv (Nat.le_trans hw.le.locals hk)).andThen fun hknown r =>
      hw.computes (r _ List.mem_cons_self) (hv.mono hknown) hs
  | .assignVar h hw, hk =>
    (h.computes hv (Nat.le_trans hw.le.locals hk)).andThen fun hknown r =>
      hw.computes (r _ List.mem_cons_self) (hv.mono hknown) hs
  | .assignField hb hr _, hk =>
    (hb.computes hv (Nat.le_trans hr.le.locals hk)).andThen fun hknown base =>
      (hr.computes (hv.mono hknown) hk).andThen fun hknown' value =>
        .write (hknown' (base _ List.mem_cons_self)) (value _ List.mem_cons_self)
  | .expr h, hk => (h.computes hv hk).drop
  | .branch hc ht he, hk =>
    (hc.computes hv (Nat.le_trans (ht.le.trans he.le).locals hk)).andThen fun hknown condition =>
      .branch (condition _ List.mem_cons_self)
        (BlockCode.computes hs (hv.mono hknown) ht (Nat.le_trans he.le.locals hk))
        (BlockCode.computes hs (hv.mono hknown) he hk) (.nil nofun)
  | .loop hc hb, hk =>
    .loop (hc.computes hv (Nat.le_trans hb.le.locals hk)) fun hknown => BlockCode.computes hs (hv.mono hknown) hb hk
  | .retNone, _ => .single nofun
  | .ret h, hk => (h.computes hv hk).andThen fun _ r => .single r

theorem BlockCode.computes {stmts : List Stmt} {σ σ' : Regs} {code : List Inst} {known : Set ValueId}
    (hs : LocalsBelow k s.locals) (hv : v.KnownIn known) : BlockCode s v stmts σ code σ' → σ'.locals.size ≤ k → Computes k known code []
  | .nil, _ => .nil nofun
  | .cons h hrest, hk =>
    (StmtCode.computes hs hv h (Nat.le_trans hrest.le.locals hk)).andThen fun hknown _ =>
      BlockCode.computes hs (hv.mono hknown) hrest hk

end

/-! ## Functions -/

theorem IncomingCode.computes {hasContext : Bool} {incoming : Option ValueId}
    (h : IncomingCode hasContext σ code incoming σ') (hk : σ'.locals.size ≤ k) :
    Computes k known code incoming.toList := by
  cases h with
  | none => exact .nil nofun
  | some hty => exact .localGet (Nat.lt_of_lt_of_le (Array.getElem?_eq_some_iff.1 hty).1 hk)

theorem ParamsCode.computes {first index : Nat} {params : List VarId} {arrived : List (VarId × ValueId)}
    {locals : List (VarId × LocalId)} (h : ParamsCode n first index params σ code arrived locals σ')
    (hk : σ'.locals.size ≤ k) : Computes k known code (arrived.map Prod.snd) := by
  induction h generalizing known with
  | nil => exact .nil nofun
  | captured _ hty hrest ih =>
    have hlt := Nat.lt_of_lt_of_le (Array.getElem?_eq_some_iff.1 hty).1 (Nat.le_trans hrest.le.locals hk)
    exact (Computes.localGet hlt).andThen fun _ hr => (ih hk).keep hr
  | «local» _ _ ih => exact ih hk

theorem ParamStores.values_known {l : Layout} {arrived : List (VarId × ValueId)} {stores : List SlotStore}
    (h : ParamStores l arrived stores) (harrived : ∀ r ∈ arrived.map Prod.snd, r ∈ known) :
    ∀ store ∈ stores, store.value ∈ known := by
  induction h with
  | nil => exact nofun
  | cons _ _ ih =>
    obtain ⟨hr, harrived⟩ := List.forall_mem_cons.1 harrived
    exact List.forall_mem_cons.2 ⟨hr, ih harrived⟩

/-- The code that enters a function makes the pointers of the function known. -/
theorem EnterCode.computes {decl : DeclId} {incoming : Option ValueId} {arrived : List (VarId × ValueId)}
    (h : EnterCode n decl incoming arrived σ code v σ') (hi : ∀ r ∈ incoming.toList, r ∈ known)
    (harrived : ∀ r ∈ arrived.map Prod.snd, r ∈ known) :
    Computes k known code (v.incoming.toList ++ v.frame.toList) := by
  cases h with
  | frameless => exact (Computes.nil (List.forall_mem_nil _)).keep hi
  | framed _ _ _ _ hparams hstores =>
    refine Computes.keep (.cons nofun fun hknown hframe => ?_) hi
    refine hstores.computes (hframe _ List.mem_cons_self) (List.forall_mem_append.2 ⟨?_, ?_⟩)
    · exact linkStores_values_known fun r hr => hknown (hi r hr)
    · exact hparams.values_known fun r hr => hknown (harrived r hr)

end

namespace FunctionCode

variable {s : Scope} {id : DeclId} {v : Vantage} {f : Lir.Function}

/-- The body of a function is scoped, with nothing known where it starts. -/
theorem inScope (h : FunctionCode s id v f) : Scoped f.locals.size ∅ f.body := by
  cases h with
  | @mk _ function _ _ _ _ paramLocals locals _ _ _ _ σ₄ σ₅ _ _ _ _ _ _ _ hparams hi hp hl he hb =>
  have hs : LocalsBelow σ₅.locals.size (paramLocals ++ locals) :=
    (BodyLocals.of_prologue hparams hi hp hl).localsBelow.mono (he.le.trans hb.le).locals
  have hlast : ∀ {known : Set ValueId}, Computes σ₅.locals.size known [function.lastInst] [] := by
    unfold FunctionDecl.lastInst
    split <;> exact .single nofun
  have hle := hl.le.trans (he.le.trans hb.le)
  suffices h : Computes σ₅.locals.size ∅ _ [] from h.inScope
  refine (hi.computes (hp.le.trans hle).locals).andThen fun _ incoming => ?_
  refine (hp.computes hle.locals).andThen fun hknown arrived => ?_
  refine (he.computes (fun r hr => hknown (incoming r hr)) arrived).andThen fun _ pointers => ?_
  obtain ⟨hincoming, hframe⟩ := List.forall_mem_append.1 pointers
  exact (hb.computes hs ⟨hframe, hincoming⟩ (Nat.le_refl _)).andThen fun _ _ => hlast

/-- Each value that a function numbers is written by one of its instructions. -/
theorem exists_definer (h : FunctionCode s id v f) {r : ValueId} (hr : r.index < f.valueTypes.size) :
    ∃ inst, f.definers r = [inst] := by
  have hwrites : r ∈ Lir.writes f.body := by
    rw [h.writes_eq]
    exact List.mem_map.2 ⟨r.index, List.mem_range.2 hr, rfl⟩
  obtain ⟨inst, hmem, hd⟩ := List.mem_filterMap.1 hwrites
  exact ⟨inst, h.definesOnce inst hmem r hd⟩

/-- A function uses values that it numbers. -/
theorem use_lt (h : FunctionCode s id v f) {inst : Inst} (hmem : inst ∈ Lir.allInsts f.body) {r : ValueId}
    (hr : r ∈ inst.uses) : r.index < f.valueTypes.size := by
  have hwrites : ∀ r ∈ Lir.writes f.body, r ∈ {r : ValueId | r.index < f.valueTypes.size} := by
    intro r hr
    obtain ⟨inst, hmem, hd⟩ := List.mem_filterMap.1 hr
    exact h.dest_lt hmem hd
  exact h.inScope.uses_mem (Set.empty_subset _) hwrites inst hmem r hr

theorem singleAssignment (h : FunctionCode s id v f) : f.SingleAssignment where
  definer _ hr := h.exists_definer hr
  value_lt _ hmem _ hr := hr.elim (h.dest_lt hmem) (h.use_lt hmem)
  inScope := h.inScope
  local_lt := h.inScope.local_lt

end FunctionCode

/-- Lowered code defines every value once and before it is used. If the program of a nesting passes the check,
then whatever its captures, layouts and plan are, and whatever was registered and lowered before, each function
that is lowered is in single assignment form. -/
theorem singleAssignment_of_lowerFunction {s s' : Scope} (hp : s.nesting.program.check = .ok ()) {id : DeclId}
    {f : Lir.Function} (h : s.lowerFunction id = (.ok f, s')) : f.SingleAssignment := by
  obtain ⟨v, -, hcode⟩ := Scope.functionCode_of_lowerFunction (Program.checked_of_check hp) h
  exact hcode.singleAssignment

/-- A function that adds up its parameter as it counts down, until the sum is too large. -/
def limited : Program where
  declarations := #[
    ⟨⟨0⟩, "main", none, [⟨0⟩, ⟨1⟩], [], .function {
      params := [⟨0⟩]
      returnType := .int
      body := [
        .letVar ⟨1⟩ (.int 0),
        .loop (.binary .and (.binary .lt (.int 0) (.var ⟨0⟩)) (.binary .lt (.var ⟨1⟩) (.int 9))) [
          .assign (.var ⟨1⟩) (.binary .add (.var ⟨1⟩) (.var ⟨0⟩)),
          .assign (.var ⟨0⟩) (.binary .sub (.var ⟨0⟩) (.int 1))],
        .ret (some (.var ⟨1⟩))] }⟩]
  vars := #[
    ⟨⟨0⟩, "n", .int, ⟨0⟩, .param⟩,
    ⟨⟨1⟩, "total", .int, ⟨0⟩, .local⟩]

/-- The tables of another program make it keep the sum in a frame, which its loop then uses. -/
theorem singleAssignment_of_lowerFunction_limited : ∃ n s f s', Nesting.of tally .escapeAnalysis = .ok n ∧
    s = Nesting.scope { n with program := limited } ∧ s.nesting.program.check = .ok () ∧
    s.lowerFunction ⟨0⟩ = (.ok f, s') ∧ f.body.any (fun inst => inst matches .loop _ _ _) = true ∧
    f.SingleAssignment := by
  obtain ⟨n, hn⟩ := exists_of_isOk (show (Nesting.of tally .escapeAnalysis).isOk = true by decide +kernel)
  have hlower : (Nesting.of tally .escapeAnalysis).toOption.any (fun n =>
      (Nesting.scope { n with program := limited } |>.lowerFunction ⟨0⟩).1.toOption.any fun f =>
        f.body.any fun inst => inst matches .loop _ _ _) = true := by
    decide +kernel
  rw [hn] at hlower
  have hp : (Nesting.scope { n with program := limited }).nesting.program.check = .ok () := by
    rw [Nesting.scope_nesting]
    rfl
  rcases hs : Nesting.scope { n with program := limited } |>.lowerFunction ⟨0⟩ with ⟨defect | f, s'⟩ <;>
    simp only [hs, Except.toOption, Option.any_some, Option.any_none, Bool.false_eq_true] at hlower
  exact ⟨n, _, f, s', hn, rfl, hp, hs, hlower, singleAssignment_of_lowerFunction hp hs⟩

end StaticChain

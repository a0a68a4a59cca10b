import StaticChain.Proofs.AllocationPolicy
import StaticChain.Proofs.Records
import StaticChain.Proofs.Regions
import StaticChain.Proofs.Simulation

/-!
# Following chains

A `Site` is the body of a lowered function: the registers it starts with and where it finds its variables,
its frame and its context. `Site.Holds` relates an activation at the site to the environment that the
evaluator has there. The code that follows a chain then leads to the carrier of the record that the
evaluator walks up to (`Site.Holds.leads_chain`), and the code that finds a context to the context of the
environment that the evaluator passes on (`Site.Holds.leads_context`).

Code between two points of a body keeps what was there before it (`Onward`).
-/

namespace StaticChain

open Lir (ValueId LocalId Inst Ty)
open Machine

/-- Variables that live in locals keep their values in the records that there are, but for one. -/
structure Memory.Keeps (n : Nesting) (but : Option Nat) (memory memory' : Memory) : Prop where
  next_le : memory.next ≤ memory'.next
  cells_eq : ∀ r x, r < memory.next → some r ≠ but → n.IsPrivate x →
    memory'.cells r x = memory.cells r x

namespace Memory.Keeps

variable {n : Nesting} {but : Option Nat} {memory memory' memory'' : Memory}

theorem refl (memory : Memory) : memory.Keeps n but memory := ⟨Nat.le_refl _, fun _ _ _ _ _ => rfl⟩

theorem trans (h : memory.Keeps n but memory') (h' : memory'.Keeps n but memory'') :
    memory.Keeps n but memory'' := by
  refine ⟨Nat.le_trans h.next_le h'.next_le, ?_⟩
  intro r x hr hbut hx
  rw [h'.cells_eq r x (Nat.lt_of_lt_of_le hr h.next_le) hbut hx, h.cells_eq r x hr hbut hx]

theorem but_of_none (h : memory.Keeps n none memory') : memory.Keeps n but memory' :=
  ⟨h.next_le, fun r x hr _ hx => h.cells_eq r x hr (by simp) hx⟩

theorem set {r : Nat} {x : VarId} (hx : n.IsPrivate x → some r = but) (d : Datum) :
    memory.Keeps n but (memory.set r x d) := by
  refine ⟨Nat.le_refl _, ?_⟩
  intro r' y hr hbut hy
  refine memory.set_cells_of_ne d ?_
  by_contra hne
  obtain ⟨rfl, rfl⟩ : r' = r ∧ y = x := by tauto
  exact hbut (hx hy)

theorem add (cells : VarId → Option Datum) : memory.Keeps n but (memory.add cells) :=
  ⟨Nat.le_succ _, fun _ _ hr _ _ => by rw [memory.add_cells_of_lt cells hr]⟩

/-- What a call does to its own record is not seen outside. -/
theorem call {cells : VarId → Option Datum}
    (h : (memory.add cells).Keeps n (some memory.next) memory') : memory.Keeps n none memory' := by
  have hadd : memory.Keeps n (some memory.next) memory' := (add cells).trans h
  refine ⟨hadd.next_le, fun r x hr _ hx => hadd.cells_eq r x hr ?_ hx⟩
  rintro ⟨⟩
  exact Nat.lt_irrefl _ hr

end Memory.Keeps

/-- From one point of a body to another one, what was there is kept. -/
structure Onward (n : Nesting) (σ : Regs) (W : Placement) (memory : Memory) (a : Activation)
    (W' : Placement) (memory' : Memory) (a' : Activation) (store' : Store) : Prop where
  grown : W.Extends W'
  kept : memory.Keeps n none memory'
  depicts : Depicts n W' memory' store'
  live : store'.AllLive
  keeps : a.Keeps σ a'

namespace Onward

variable {n : Nesting} {σ σ' : Regs} {W W' W'' : Placement} {memory memory' memory'' : Memory}
  {a a' a'' : Activation} {store' store'' : Store}

theorem refl (σ : Regs) (a : Activation) (hd : Depicts n W memory store') (hl : store'.AllLive) :
    Onward n σ W memory a W memory a store' :=
  ⟨W.extends_refl, .refl memory, hd, hl, .refl σ a⟩

theorem trans (h : Onward n σ W memory a W' memory' a' store')
    (h' : Onward n σ' W' memory' a' W'' memory'' a'' store'') (hle : σ.Le σ') :
    Onward n σ W memory a W'' memory'' a'' store'' :=
  ⟨h.grown.trans h'.grown, h.kept.trans h'.kept, h'.depicts, h'.live, h.keeps.trans h'.keeps hle⟩

theorem of_le (h : Onward n σ' W memory a W' memory' a' store') (hle : σ.Le σ') :
    Onward n σ W memory a W' memory' a' store' :=
  ⟨h.grown, h.kept, h.depicts, h.live, h.keeps.of_le hle⟩

/-- A value is written. -/
theorem define (h : Onward n σ W memory a W' memory' a' store') (hle : σ.Le σ') (v : Value) :
    Onward n σ W memory a W' memory' (a'.define σ'.next v) store' :=
  ⟨h.grown, h.kept, h.depicts, h.live, h.keeps.define hle v⟩

end Onward

/-! ## Sites -/

/-- What a call passes before the arguments. -/
def Nesting.hiddenArgs (n : Nesting) (callee : DeclId) (context : Option ObjectId) : List Value :=
  if (n.program.parent? callee).isSome then [.ofContext context] else []

/-- The body of a lowered function. -/
structure Site (n : Nesting) where
  scope : Scope
  vantage : Vantage
  /-- The values and locals that the body starts with. -/
  regs : Regs
  within : scope.Within n
  isFunction : n.program.isFunction vantage.decl = true
  frame_iff : vantage.frame.isSome = n.captures.isFrameNeeded vantage.decl
  frame_lt : ∀ r, vantage.frame = some r → r.index < regs.values.size
  incoming_lt : ∀ r, vantage.incoming = some r → r.index < regs.values.size
  local_lt : ∀ x l, scope.locals.lookup x = some l → l.index < regs.locals.size
  local_inj : ∀ x y l, scope.locals.lookup x = some l → scope.locals.lookup y = some l → x = y
  isPrivate : ∀ x l, scope.locals.lookup x = some l → n.IsPrivate x

namespace Site

variable {n : Nesting}

/-- The function of the site. -/
def decl (site : Site n) : DeclId := site.vantage.decl

/-- The activation finds at the site what the evaluator has in its record and around it. -/
structure Holds (site : Site n) (record : Nat) (rest : Env) (context : Option ObjectId) (W : Placement)
    (memory : Memory) (a : Activation) : Prop where
  made : record < memory.next
  around : Around n W (n.program.parent? site.decl) rest context
  name_eq : a.function.name = n.program.qualifiedName site.decl
  incoming : ∀ r, site.vantage.incoming = some r → a.value r = .ok (.ofContext context)
  frame : ∀ r, site.vantage.frame = some r →
    ∃ o, a.value r = .ok (.object o) ∧ W record = some ⟨site.decl, o, context⟩
  «local» : ∀ x l, site.scope.locals.lookup x = some l →
    CellHolds n W (n.program.varType x) (memory.cells record x) a.locals[l.index]?

variable {policy : FramePolicy} {site : Site n} {record : Nat} {rest : Env} {context : Option ObjectId}
  {W W' : Placement} {memory memory' : Memory} {a a' : Activation} {store store' : Store}

theorem isCarrier_decl (site : Site n) :
    n.captures.isCarrier n.program site.decl = n.captures.isFrameNeeded site.decl := by
  obtain ⟨function, hf⟩ := Program.isFunction_iff.1 site.isFunction
  have := Program.isAggregate_of_function hf
  simp [Captures.isCarrier, decl, this]

namespace Holds

/-- The code of a body keeps what the body starts with. -/
theorem onward {σ : Regs} (h : site.Holds record rest context W memory a)
    (ho : Onward n σ W memory a W' memory' a' store') (hle : site.regs.Le σ) :
    site.Holds record rest context W' memory' a' := by
  have hkeeps := ho.keeps.of_le hle
  refine ⟨Nat.lt_of_lt_of_le h.made ho.kept.next_le, h.around.extend ho.grown, ?_, ?_, ?_, ?_⟩
  · rw [ho.keeps.function_eq]
    exact h.name_eq
  · intro r hr
    rw [hkeeps.value r (site.incoming_lt r hr)]
    exact h.incoming r hr
  · intro r hr
    obtain ⟨o, hv, hW⟩ := h.frame r hr
    exact ⟨o, by rw [hkeeps.value r (site.frame_lt r hr), hv], ho.grown _ _ hW⟩
  · intro x l hx
    rw [hkeeps.local l.index (site.local_lt x l hx),
      ho.kept.cells_eq record x h.made (by simp) (site.isPrivate x l hx)]
    exact (h.local x l hx).extend ho.grown

/-- The environment at the site, with its context. -/
theorem exists_around (h : site.Holds record rest context W memory a) :
    ∃ context, Around n W (some site.decl) ((site.decl, record) :: rest) context := by
  have hc := site.isCarrier_decl
  cases hf : site.vantage.frame with
  | none =>
    have hframe := site.frame_iff
    rw [hf] at hframe
    exact ⟨_, .plain (hc.trans hframe.symm) h.around⟩
  | some r =>
    have hframe := site.frame_iff
    rw [hf] at hframe
    obtain ⟨o, -, hW⟩ := h.frame r hf
    exact ⟨_, .carrier (hc.trans hframe.symm) h.around hW⟩

end Holds

end Site

/-! ## Chains -/

theorem Nesting.Built.isCarrier_of_layout {n : Nesting} {policy : FramePolicy} (hn : n.Built policy)
    {owner : DeclId} {l : Layout} (hl : n.layouts.layout? owner = some l) :
    n.captures.isCarrier n.program owner = true := by
  have hof := hn.layout_of hl
  generalize l.struct = struct at hof
  unfold Captures.isCarrier Captures.isFrameNeeded
  cases hof with
  | frame hd hk hs needed hslots => simp [hs, needed]
  | aggregate hd hk hs hslots =>
    simp [Program.isAggregate_iff.2 ⟨_, Program.aggregate?_eq_some_iff.2 ⟨_, hd, hk⟩⟩]

/-- A chain ends at a value that its code has written, or where it starts. -/
theorem HopsCode.lt {σ σ' : Regs} {pointer r : ValueId} {hops : List Chain.Hop} {code : List Inst}
    (h : HopsCode σ pointer hops code r σ') (hlt : pointer.index < σ.values.size) :
    r.index < σ'.values.size := by
  induction h with
  | nil => exact hlt
  | cons _ ih => exact ih (by simp [Regs.next])

theorem Site.chain_lt {n : Nesting} (site : Site n) {σ σ' : Regs} (hle : site.regs.Le σ) {chain : Chain}
    {code : List Inst} {r : ValueId} (h : ChainCode site.vantage chain σ code r σ') :
    r.index < σ'.values.size := by
  obtain ⟨hstart, hhops⟩ := h
  refine hhops.lt (Nat.lt_of_lt_of_le ?_ hle.values)
  obtain ⟨-, hframe⟩ | ⟨-, hincoming⟩ := Nesting.chainStart_eq_ok.1 hstart
  · exact site.frame_lt _ hframe
  · exact site.incoming_lt _ hincoming

/-- A context that is passed on is a value that its code has written, or where a chain starts. -/
theorem Site.context_lt {n : Nesting} (site : Site n) {σ σ' : Regs} (hle : site.regs.Le σ)
    {argument : ContextArgument} {code : List Inst} {hidden : Option ValueId}
    (h : ContextCode site.vantage argument σ code hidden σ') {r : ValueId} (hr : hidden = some r) :
    r.index < σ'.values.size := by
  cases h with
  | none => cases hr
  | null =>
    cases hr
    simp [Regs.next]
  | chain h =>
    cases hr
    exact site.chain_lt hle h

section

variable {n : Nesting} {policy : FramePolicy} (hn : n.Built policy) {m : Lir.Module} {W : Placement}
  {memory : Memory} {store : Store} {σ σ' : Regs} {code : List Inst} {a : Activation} {c : CallStack}
  {cont : Cont}
include hn

/-- Links lead from carrier to carrier, as walking up leads from record to record. -/
theorem HopsCode.leads (hd : Depicts n W memory store) (hlive : store.AllLive) {start : Option DeclId}
    {hops : List Chain.Hop} {target : DeclId} (hto : n.HopsTo start hops target) {pointer r : ValueId}
    (h : HopsCode σ pointer hops code r σ') (hfits : a.Fits σ') {env : Env} {o : ObjectId}
    (henv : ∀ decl, start = some decl → Around n W (some decl) env (some o))
    (hpointer : a.value pointer = .ok (.object o)) :
    ∃ a' inner o', State.Leads m code.length ⟨a.resume (cont.before code), c, store⟩
        ⟨a'.resume cont, c, store⟩ ∧ a.Keeps σ a' ∧ a'.value r = .ok (.object o') ∧
      inner <:+ env ∧ Around n W (some target) inner (some o') := by
  induction hto generalizing σ pointer code a env o with
  | nil target =>
    cases h
    exact ⟨a, env, o, .refl _, .refl _ a, hpointer, List.suffix_refl _, henv target rfl⟩
  | @cons through target hop hops hhop hto ih =>
    cases h with | @cons σ _ _ _ _ _ code h =>
    obtain ⟨l, hl, hstruct, hslot⟩ := Nesting.hop_eq_ok hhop
    obtain ⟨r', rest, o', link, rfl, ho, hW, hrest⟩ :=
      (henv through rfl).exists_carrier (hn.isCarrier_of_layout hl)
    cases ho
    obtain ⟨object, hobj, hstruct', hholds⟩ := hd.exists_object hW hl
    have hlink := hholds.link hop.slot hslot
    obtain ⟨up, hup⟩ : ∃ up, n.above through = some up := by
      cases habove : n.above through with
      | none =>
        rw [habove] at hto
        cases hto
      | some up => exact ⟨up, rfl⟩
    obtain ⟨o₁, inner, hlinked, hsuffix, hinner⟩ := (hrest.above hn).2 up hup
    rw [hlinked] at hlink
    -- The two instructions of a hop: the address of the link, then the link.
    have hfits₂ := hfits.of_le h.le
    have hfits₁ : a.Fits (σ.value .ptr) := hfits₂.of_le (Regs.le_value _ _)
    have hkeeps₁ : a.Keeps σ (a.define σ.next (.slot o hop.slot)) :=
      (Activation.Keeps.refl σ a).define (.refl σ) _
    have hkeeps₂ : a.Keeps σ ((a.define σ.next (.slot o hop.slot)).define (σ.value .ptr).next
        (.object o₁)) := hkeeps₁.define (σ.le_value .ptr) _
    have hfits' : (a.define σ.next (.slot o hop.slot)).Fits ((σ.value .ptr).value .ptr) :=
      hfits₂.keep hkeeps₁
    obtain ⟨a', inner', o', hleads, hkeeps, hr, hsuffix', haround⟩ := ih h (hfits.keep hkeeps₂)
      (fun decl hdecl => by
        rw [hup] at hdecl
        cases hdecl
        exact hinner)
      (hfits'.value_define _)
    refine ⟨a', inner', o', ?_, hkeeps₂.trans hkeeps (((Regs.Le.refl σ).value _).value _), hr,
      hsuffix'.trans (hsuffix.trans (List.suffix_cons _ _)), haround⟩
    rw [Cont.before_cons, List.length_cons, Nat.add_comm]
    refine (State.leads_of_define (.fieldAddr hpointer hobj (hlive o object hobj)
      (hstruct'.trans hstruct.symm))).trans ?_
    rw [Cont.before_cons, List.length_cons, Nat.add_comm]
    refine State.Leads.trans (State.leads_of_define ?_) hleads
    exact .load (hfits₁.value_define _) hobj (hlive o object hobj) hlink

namespace Site.Holds

variable {site : Site n} {record : Nat} {rest : Env} {context : Option ObjectId}

/-- The code of a chain leads to the carrier of the record that walking up leads to. -/
theorem leads_chain (h : site.Holds record rest context W memory a) (hd : Depicts n W memory store)
    (hlive : store.AllLive) {target : DeclId} {chain : Chain}
    (hchain : n.chainTo site.decl target = .ok chain) {r : ValueId}
    (hcode : ChainCode site.vantage chain σ code r σ') (hfits : a.Fits σ') :
    ∃ a' o, State.Leads m code.length ⟨a.resume (cont.before code), c, store⟩
        ⟨a'.resume cont, c, store⟩ ∧ a.Keeps σ a' ∧ a'.value r = .ok (.object o) ∧
      Around n W (some target) (Env.upTo ((site.decl, record) :: rest) target) (some o) := by
  obtain ⟨context', henv⟩ := h.exists_around
  obtain ⟨hstart, hhops⟩ := hcode
  rename_i start
  have hto := hn.hopsTo_of_chainTo hchain
  -- Where the chain starts stands the carrier of a part of the environment.
  obtain ⟨inner, o, hsuffix, hinner, hvalue⟩ : ∃ inner o, inner <:+ (site.decl, record) :: rest ∧
      (∀ decl, n.startOf site.decl chain.start = some decl → Around n W (some decl) inner (some o)) ∧
      a.value start = .ok (.object o) := by
    obtain ⟨hs, hf⟩ | ⟨hs, hi⟩ := Nesting.chainStart_eq_ok.1 hstart
    · obtain ⟨o, hvalue, hW⟩ := h.frame start hf
      have hframe := site.frame_iff
      rw [hf] at hframe
      refine ⟨_, o, List.suffix_refl _, ?_, hvalue⟩
      rw [hs]
      rintro _ ⟨⟩
      exact .carrier (site.isCarrier_decl.trans hframe.symm) h.around hW
    · rw [hs] at hto ⊢
      have hvalue := h.incoming start hi
      cases habove : n.above site.decl with
      | none =>
        simp only [Nesting.startOf, habove] at hto
        cases hto
      | some up =>
        obtain ⟨o, inner, rfl, hsuffix, hinner⟩ := (h.around.above hn).2 up habove
        refine ⟨inner, o, hsuffix.trans (List.suffix_cons _ _), ?_, hvalue⟩
        intro decl hdecl
        simp only [Nesting.startOf, habove, Option.some.injEq] at hdecl
        rw [← hdecl]
        exact hinner
  obtain ⟨a', inner', o', hleads, hkeeps, hr, hsuffix', haround⟩ :=
    hhops.leads hn hd hlive hto hfits hinner hvalue
  obtain ⟨r', rest', hcons, -⟩ := haround.exists_cons
  subst hcons
  refine ⟨a', o', hleads, hkeeps, hr, ?_⟩
  rw [henv.upTo_eq hn.checked (hsuffix'.trans hsuffix)]
  exact haround

/-- The code of a context leads to the context of the environment that is passed on. -/
theorem leads_context (h : site.Holds record rest context W memory a) (hd : Depicts n W memory store)
    (hlive : store.AllLive) {decl : DeclId} {argument : ContextArgument}
    (hfor : n.ContextFor site.decl decl argument) {hidden : Option ValueId}
    (hcode : ContextCode site.vantage argument σ code hidden σ') (hfits : a.Fits σ')
    (hdecl : ∀ parent, n.program.parent? decl = some parent →
      parent ∈ site.decl :: n.program.ancestors site.decl) :
    ∃ a' r passed, hidden = some r ∧ State.Leads m code.length
        ⟨a.resume (cont.before code), c, store⟩ ⟨a'.resume cont, c, store⟩ ∧
      a.Keeps σ a' ∧ a'.value r = .ok (.ofContext passed) ∧ Around n W (n.program.parent? decl)
        (n.program.parentEnv ((site.decl, record) :: rest) decl) passed := by
  obtain ⟨context', henv⟩ := h.exists_around
  obtain ⟨passed, hpassed⟩ := henv.parentEnv hn.checked hdecl
  obtain ⟨hnone, hsome⟩ := hpassed.above hn
  cases hfor with
  | null habove =>
    cases hcode
    obtain rfl := hnone habove
    exact ⟨_, _, none, rfl, State.leads_of_define .null, (Activation.Keeps.refl σ a).define (.refl σ) _,
      hfits.value_define _, hpassed⟩
  | @chain target chain habove hchain =>
    cases hcode with | chain hcode =>
    obtain ⟨a', o, hleads, hkeeps, hr, haround⟩ := h.leads_chain hn hd hlive hchain hcode hfits
    obtain ⟨o', inner, rfl, hsuffix, hinner⟩ := hsome target habove
    obtain ⟨r', rest', hcons, -⟩ := hinner.exists_cons
    subst hcons
    have hparent : n.program.parentEnv ((site.decl, record) :: rest) decl <:+ (site.decl, record) :: rest := by
      unfold Program.parentEnv
      split
      · exact List.dropWhile_suffix _
      · exact List.nil_suffix
    rw [henv.upTo_eq hn.checked (hsuffix.trans hparent)] at haround
    cases hinner.unique haround
    exact ⟨a', _, some _, rfl, hleads, hkeeps, hr, hpassed⟩

/-- The context that a direct call passes. -/
theorem leads_callContext (h : site.Holds record rest context W memory a) (hd : Depicts n W memory store)
    (hlive : store.AllLive) {callee : DeclId} {argument : ContextArgument}
    (hcontext : n.callContext site.decl callee = .ok argument) {hidden : Option ValueId}
    (hcode : ContextCode site.vantage argument σ code hidden σ') (hle : site.regs.Le σ) (hfits : a.Fits σ')
    (hcallee : ∀ parent, n.program.parent? callee = some parent →
      parent ∈ site.decl :: n.program.ancestors site.decl) :
    ∃ a' passed, State.Leads m code.length ⟨a.resume (cont.before code), c, store⟩
        ⟨a'.resume cont, c, store⟩ ∧ a.Keeps σ a' ∧
      List.Forall₂ (fun r v => a'.value r = .ok v ∧ r.index < σ'.values.size) hidden.toList
        (n.hiddenArgs callee passed) ∧
      Around n W (n.program.parent? callee)
        (n.program.parentEnv ((site.decl, record) :: rest) callee) passed := by
  obtain ⟨-, ⟨rfl, hpar⟩ | rfl | ⟨hpar, hfor⟩⟩ := Nesting.callContext_eq_ok hcontext
  · cases hcode
    refine ⟨a, none, .refl _, .refl σ a, by simp [Nesting.hiddenArgs, hpar], ?_⟩
    rw [Program.parentEnv, hpar]
    exact .nil
  · cases hcode
  · obtain ⟨a', r, passed, rfl, hleads, hkeeps, hr, haround⟩ :=
      h.leads_context hn hd hlive hfor hcode hfits hcallee
    have hlt := site.context_lt hle hcode rfl
    exact ⟨a', passed, hleads, hkeeps, by simp [Nesting.hiddenArgs, hpar, hr, hlt], haround⟩

/-- The context of a function value. -/
theorem leads_closureContext (h : site.Holds record rest context W memory a)
    (hd : Depicts n W memory store) (hlive : store.AllLive) {callee : DeclId}
    {argument : ContextArgument} (hcontext : n.callContext site.decl callee = .ok argument)
    {r : ValueId} (hcode : ClosureContextCode site.vantage argument σ code r σ') (hfits : a.Fits σ')
    (hcallee : ∀ parent, n.program.parent? callee = some parent →
      parent ∈ site.decl :: n.program.ancestors site.decl) :
    ∃ a' passed, State.Leads m code.length ⟨a.resume (cont.before code), c, store⟩
        ⟨a'.resume cont, c, store⟩ ∧ a.Keeps σ a' ∧ a'.value r = .ok (.ofContext passed) ∧
      Around n W (n.program.parent? callee)
        (n.program.parentEnv ((site.decl, record) :: rest) callee) passed := by
  obtain ⟨-, ⟨rfl, hpar⟩ | rfl | ⟨-, hfor⟩⟩ := Nesting.callContext_eq_ok hcontext
  · cases hcode
    refine ⟨_, none, State.leads_of_define .null, (Activation.Keeps.refl σ a).define (.refl σ) _,
      hfits.value_define _, ?_⟩
    rw [Program.parentEnv, hpar]
    exact .nil
  · cases hcode
  · have hcode' : ContextCode site.vantage argument σ code (some r) σ' := by
      cases hcode with
      | none => cases hfor
      | null => exact .null
      | chain hcode => exact .chain hcode
    obtain ⟨a', _, passed, ⟨⟩, hleads, hkeeps, hr, haround⟩ :=
      h.leads_context hn hd hlive hfor hcode' hfits hcallee
    exact ⟨a', passed, hleads, hkeeps, hr, haround⟩

/-- The context that a new instance is linked to. -/
theorem leads_constructionContext (h : site.Holds record rest context W memory a)
    (hd : Depicts n W memory store) (hlive : store.AllLive) {aggregate : DeclId}
    {argument : ContextArgument} (hcontext : n.constructionContext site.decl aggregate = .ok argument)
    {outer : Option ValueId} (hcode : ContextCode site.vantage argument σ code outer σ')
    (hle : site.regs.Le σ) (hfits : a.Fits σ')
    (haggregate : ∀ parent, n.program.parent? aggregate = some parent →
      parent ∈ site.decl :: n.program.ancestors site.decl) :
    ∃ a' passed, State.Leads m code.length ⟨a.resume (cont.before code), c, store⟩
        ⟨a'.resume cont, c, store⟩ ∧ a.Keeps σ a' ∧
      (∀ r, outer = some r → a'.value r = .ok (.ofContext passed) ∧ r.index < σ'.values.size) ∧
      Around n W (n.program.parent? aggregate)
        (n.program.parentEnv ((site.decl, record) :: rest) aggregate) passed := by
  obtain ⟨l, -, ⟨rfl, -⟩ | ⟨-, hfor⟩⟩ := Nesting.constructionContext_eq_ok hcontext
  · cases hcode
    obtain ⟨context', henv⟩ := h.exists_around
    obtain ⟨passed, hpassed⟩ := henv.parentEnv hn.checked haggregate
    exact ⟨a, passed, .refl _, .refl σ a, by simp, hpassed⟩
  · obtain ⟨a', r, passed, rfl, hleads, hkeeps, hr, haround⟩ :=
      h.leads_context hn hd hlive hfor hcode hfits haggregate
    refine ⟨a', passed, hleads, hkeeps, ?_, haround⟩
    rintro _ ⟨⟩
    exact ⟨hr, site.context_lt hle hcode rfl⟩

end Site.Holds

end

end StaticChain

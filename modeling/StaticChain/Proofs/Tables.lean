import StaticChain.Chain.Resolution
import StaticChain.Proofs.Forest

/-!
# The tables of an accepted program

What `Nesting.of` puts into its tables, in the form in which the proofs use it. The names that a
body refers to are those of the function or of declarations around it (`Nesting.Built.enclosed`). A
variable that is captured gives its function a frame. Every layout stands at the position of its
struct type and has the slots that `Layout.of?` gives it (`Nesting.Built.layout_of`), and the plan
puts a frame where the policy says (`Nesting.Built.plan_kind`).

`Nesting.above` is the carrier that a declaration finds above itself: what the context of a nested
function points to, and what the link of a carrier holds. A chain that was found goes from carrier
to carrier along it (`Nesting.HopsTo`, `Nesting.Built.hopsTo_of_chainTo`).
-/

namespace StaticChain

/-- A name refers to the function it stands in or to something around it. -/
def Reference.Enclosed (p : Program) (useSite : DeclId) : Reference → Prop
  | .variable id => ∃ var, p.var? id = some var ∧ var.owner ∈ useSite :: p.ancestors useSite
  | .context target => target ∈ useSite :: p.ancestors useSite

namespace Program

variable {p : Program}

theorem getDecl_eq_ok {id : DeclId} {decl : Declaration} :
    p.getDecl id = .ok decl ↔ p.decl? id = some decl := by
  unfold getDecl
  cases p.decl? id <;> simp

theorem getVar_eq_ok {id : VarId} {var : Variable} :
    p.getVar id = .ok var ↔ p.var? id = some var := by
  unfold getVar
  cases p.var? id <;> simp

theorem function?_eq_some_iff {id : DeclId} {function : FunctionDecl} :
    p.function? id = some function ↔
      ∃ decl, p.decl? id = some decl ∧ decl.kind = .function function := by
  unfold function?
  cases hd : p.decl? id with
  | none => simp
  | some decl =>
    obtain ⟨_, _, _, _, _, kind⟩ := decl
    cases kind <;> simp

theorem aggregate?_eq_some_iff {id : DeclId} {aggregate : AggregateDecl} :
    p.aggregate? id = some aggregate ↔
      ∃ decl, p.decl? id = some decl ∧ decl.kind = .aggregate aggregate := by
  unfold aggregate?
  cases hd : p.decl? id with
  | none => simp
  | some decl =>
    obtain ⟨_, _, _, _, _, kind⟩ := decl
    cases kind <;> simp

theorem getFunction_eq_ok {id : DeclId} {function : FunctionDecl} :
    p.getFunction id = .ok function ↔ p.function? id = some function := by
  unfold getFunction function?
  cases hd : p.decl? id with
  | none => simp
  | some decl =>
    obtain ⟨_, _, _, _, _, kind⟩ := decl
    cases kind <;> simp

theorem isFunction_iff {id : DeclId} :
    p.isFunction id = true ↔ ∃ function, p.function? id = some function := by
  simp [isFunction, Option.isSome_iff_exists]

theorem isAggregate_iff {id : DeclId} :
    p.isAggregate id = true ↔ ∃ aggregate, p.aggregate? id = some aggregate := by
  simp [isAggregate, Option.isSome_iff_exists]

/-- No declaration is both a function and an aggregate. -/
theorem isAggregate_of_function {id : DeclId} {function : FunctionDecl}
    (h : p.function? id = some function) : p.isAggregate id = false := by
  obtain ⟨decl, hd, hk⟩ := function?_eq_some_iff.1 h
  obtain ⟨_, _, _, _, _, kind⟩ := decl
  cases hk
  simp [isAggregate, aggregate?, hd]

end Program

namespace Captures

variable {p : Program}

theorem mem_of_pathTo {useSite target : DeclId} {var : Option VarId} {path : List DeclId}
    (h : pathTo p useSite target var = .ok path) : target ∈ p.ancestors useSite := by
  unfold pathTo at h
  split at h
  · simp_all
  · simp at h

theorem enclosed_of_useOf {useSite : DeclId} {reference : Reference} {use : Option Use}
    (h : useOf p useSite reference = .ok use) : reference.Enclosed p useSite := by
  cases reference with
  | «variable» id =>
    unfold useOf at h
    obtain ⟨var, hv, h⟩ := bind_eq_ok.1 h
    refine ⟨var, Program.getVar_eq_ok.1 hv, ?_⟩
    split at h
    · simp_all
    · obtain ⟨path, hpath, -⟩ := bind_eq_ok.1 h
      exact List.mem_cons_of_mem _ (mem_of_pathTo hpath)
  | context target =>
    unfold useOf at h
    simp only at h
    split at h
    · simp_all [Reference.Enclosed]
    · obtain ⟨path, hpath, -⟩ := bind_eq_ok.1 h
      exact List.mem_cons_of_mem _ (mem_of_pathTo hpath)

end Captures

theorem ValueType.storage_eq_ok {ty : ValueType} {storage : Lir.Ty} :
    ty.storage = .ok storage ↔ ty.storage? = some storage := by
  unfold ValueType.storage
  cases ty.storage? <;> simp

namespace Layout

variable {p : Program} {c : Captures} {l : Layout}

/-- The slot of a variable in a layout. -/
theorem slotFor_eq_ok {kind : VarId → SlotKind} {id : VarId} {slot : Slot}
    (h : slotFor p kind id = .ok slot) :
    ∃ var, p.var? id = some var ∧ slot.kind = kind id ∧ var.ty.storage? = some slot.ty := by
  unfold slotFor at h
  obtain ⟨var, hv, h⟩ := bind_eq_ok.1 h
  obtain ⟨ty, hty, h⟩ := bind_eq_ok.1 h
  obtain rfl := pure_eq_ok.1 h
  exact ⟨var, Program.getVar_eq_ok.1 hv, rfl, ValueType.storage_eq_ok.1 hty⟩

/-- The layouts that a declaration can have: captured variables and a `parent` link for a function
with a frame, fields and an `outer` link for an aggregate. -/
inductive Of (p : Program) (c : Captures) (struct : Lir.StructId) (id : DeclId) : Layout → Prop
  | frame {decl : Declaration} {function : FunctionDecl} {summary : Captures.Summary}
      {slots : List Slot} (decl_eq : p.decl? id = some decl)
      (kind_eq : decl.kind = .function function) (summary_eq : c.summary? id = some summary)
      (needed : summary.frameNeeded = true)
      (slots_eq : List.Forall₂ (fun x slot => slotFor p .captured x = .ok slot)
        summary.captured slots) :
      Of p c struct id {
        owner := id
        struct
        name := "frame." ++ p.qualifiedName id
        slots := slots ++ if decl.parent.isSome then [⟨.parent, "parent", .ptr⟩] else []
        parentSlot := if decl.parent.isSome then some slots.length else none
        outerSlot := none }
  | aggregate {decl : Declaration} {aggregate : AggregateDecl} {summary : Captures.Summary}
      {slots : List Slot} (decl_eq : p.decl? id = some decl)
      (kind_eq : decl.kind = .aggregate aggregate) (summary_eq : c.summary? id = some summary)
      (slots_eq : List.Forall₂ (fun x slot => slotFor p .field x = .ok slot)
        aggregate.fields slots) :
      Of p c struct id {
        owner := id
        struct
        name := "inst." ++ p.qualifiedName id
        slots := slots ++ if summary.needsOuter then [⟨.outer, "outer", .ptr⟩] else []
        parentSlot := none
        outerSlot := if summary.needsOuter then some slots.length else none }

theorem of_of?_eq (hp : p.Checked) {struct : Lir.StructId} {id : DeclId}
    (h : of? p c struct id = .ok (some l)) : Of p c struct id l := by
  unfold of? at h
  obtain ⟨decl, hd, h⟩ := bind_eq_ok.1 h
  have hd := Program.getDecl_eq_ok.1 hd
  have hid := hp.decl_id hd
  cases hs : c.summary? id with
  | none => exact absurd (by simpa only [hs] using h) throw_ne_ok
  | some summary =>
    simp only [hs] at h
    cases hk : decl.kind with
    | function function =>
      simp only [hk] at h
      split at h
      · rename_i needed
        obtain ⟨l', hl, hl'⟩ := map_eq_ok.1 h
        cases hl'
        unfold ofFrame at hl
        obtain ⟨slots, hslots, hl⟩ := bind_eq_ok.1 hl
        obtain rfl := pure_eq_ok.1 hl
        rw [hid]
        exact .frame hd hk hs needed (mapM_eq_ok.1 hslots)
      · simp [pure, Except.pure] at h
    | aggregate aggregate =>
      simp only [hk] at h
      obtain ⟨l', hl, hl'⟩ := map_eq_ok.1 h
      cases hl'
      unfold ofInstance at hl
      obtain ⟨slots, hslots, hl⟩ := bind_eq_ok.1 hl
      obtain rfl := pure_eq_ok.1 hl
      rw [hid]
      exact .aggregate hd hk hs (mapM_eq_ok.1 hslots)

namespace Of

variable {struct : Lir.StructId} {id : DeclId}

theorem owner_eq (h : Of p c struct id l) : l.owner = id := by
  cases h <;> rfl

theorem struct_eq (h : Of p c struct id l) : l.struct = struct := by
  cases h <;> rfl

/-- The slots of variables come first. -/
theorem kind_of_lt {kind : VarId → SlotKind} {vars : List VarId} {slots : List Slot}
    (h : List.Forall₂ (fun x slot => slotFor p kind x = .ok slot) vars slots) {i : Nat}
    {slot : Slot} (hi : slots[i]? = some slot) :
    ∃ x var, vars[i]? = some x ∧ p.var? x = some var ∧ slot.kind = kind x ∧
      var.ty.storage? = some slot.ty := by
  obtain ⟨hlt, rfl⟩ := List.getElem?_eq_some_iff.1 hi
  have hlt' : i < vars.length := h.length_eq ▸ hlt
  obtain ⟨var, hv, hk, hty⟩ := slotFor_eq_ok (h.get hlt' hlt)
  exact ⟨vars[i], var, by simp, hv, hk, hty⟩

theorem kind_parentSlot (h : Of p c struct id l) {i : Nat} (hi : l.parentSlot = some i) :
    ∃ slot, l.slots[i]? = some slot ∧ slot.kind = .parent := by
  cases h with
  | frame hd hk hs needed hslots =>
    simp only [Option.ite_none_right_eq_some, Option.some.injEq] at hi
    obtain ⟨hpar, rfl⟩ := hi
    simp [hpar]
  | aggregate hd hk hs hslots => simp at hi

theorem kind_outerSlot (h : Of p c struct id l) {i : Nat} (hi : l.outerSlot = some i) :
    ∃ slot, l.slots[i]? = some slot ∧ slot.kind = .outer := by
  cases h with
  | frame hd hk hs needed hslots => simp at hi
  | aggregate hd hk hs hslots =>
    simp only [Option.ite_none_right_eq_some, Option.some.injEq] at hi
    obtain ⟨houter, rfl⟩ := hi
    simp [houter]

end Of

/-- The slot that is found for a variable holds it. -/
theorem kind_of_slotOf? {x : VarId} {i : Nat} (h : l.slotOf? x = some i) :
    ∃ slot, l.slots[i]? = some slot ∧ slot.kind.var? = some x := by
  unfold slotOf? at h
  obtain ⟨hi, hx, -⟩ := List.findIdx?_eq_some_iff_getElem.1 h
  exact ⟨l.slots[i], by simp, by simpa using hx⟩

end Layout

namespace Layouts

variable {p : Program} {c : Captures}

/-- Every layout stands at the position of its struct type and is a layout of its owner. -/
def Indexed (p : Program) (c : Captures) (ls : Layouts) : Prop :=
  ∀ (i : Nat) (l : Layout), ls.layouts[i]? = some l → Layout.Of p c ⟨i⟩ l.owner l

theorem indexed_extend (hp : p.Checked) {ids : List DeclId} {ls ls' : Layouts}
    (hls : Indexed p c ls) (h : extend p c ids ls = .ok ls') : Indexed p c ls' := by
  induction ids generalizing ls with
  | nil =>
    cases h
    exact hls
  | cons id ids ih =>
    unfold extend at h
    obtain ⟨layout, hl, h⟩ := bind_eq_ok.1 h
    cases layout with
    | none => exact ih hls h
    | some layout =>
      refine ih ?_ h
      have hof := Layout.of_of?_eq hp hl
      intro i l hi
      rw [Array.getElem?_push] at hi
      split at hi
      · rename_i heq
        cases hi
        rw [hof.owner_eq, heq]
        exact hof
      · exact hls i l hi

theorem indexed_of (hp : p.Checked) {ls : Layouts} (h : Layouts.of p c = .ok ls) :
    Indexed p c ls :=
  indexed_extend hp (by simp [Indexed, empty]) h

theorem getLayout_eq_ok {ls : Layouts} {owner : DeclId} {l : Layout} :
    ls.getLayout owner = .ok l ↔ ls.layout? owner = some l := by
  unfold getLayout
  cases ls.layout? owner <;> simp

theorem layout?_of_indexed {ls : Layouts} (h : Indexed p c ls) {owner : DeclId} {l : Layout}
    (hl : ls.layout? owner = some l) :
    Layout.Of p c l.struct owner l ∧ ls.byStruct? l.struct = some l := by
  unfold layout? at hl
  have howner : l.owner = owner := by simpa using List.find?_some hl
  have hmem : l ∈ ls.layouts := by simpa using List.mem_of_find?_eq_some hl
  obtain ⟨i, hi, rfl⟩ := Array.getElem_of_mem hmem
  have hof := h i _ (Array.getElem?_eq_getElem hi)
  rw [howner] at hof
  rw [hof.struct_eq]
  exact ⟨hof, by simp [byStruct?]⟩

end Layouts

namespace Nesting

/-- The carrier that a declaration finds above itself. -/
def above (n : Nesting) (id : DeclId) : Option DeclId :=
  (n.program.parent? id).bind (n.captures.nearestCarrier? n.program)

/-- What is known of the tables of an accepted program. -/
structure Built (n : Nesting) (policy : FramePolicy) : Prop where
  checked : n.program.Checked
  captures_eq : Captures.of n.program = .ok n.captures
  layouts_eq : Layouts.of n.program n.captures = .ok n.layouts
  plan_eq : n.plan = FramePlan.of n.program n.layouts policy

theorem built_of_eq_ok {p : Program} (hp : p.Checked) {policy : FramePolicy} {n : Nesting}
    (h : Nesting.of p policy = .ok n) : n.program = p ∧ n.Built policy := by
  unfold Nesting.of at h
  obtain ⟨captures, hc, h⟩ := bind_eq_ok.1 h
  obtain ⟨layouts, hl, h⟩ := bind_eq_ok.1 h
  obtain rfl := pure_eq_ok.1 h
  exact ⟨rfl, hp, hc, hl, rfl⟩

namespace Built

variable {n : Nesting} {policy : FramePolicy} (hn : n.Built policy)
include hn

/-! ## Captures -/

/-- The uses that the captures were found from. -/
theorem exists_uses : ∃ uses, Captures.uses n.program = .ok uses ∧
    n.captures.summaries = n.program.declarations.map (Captures.summaryOf n.program uses) ∧
    n.captures.captured = (n.program.vars.toList.map Variable.id).filter
      (Captures.capturedBy uses) := by
  have h := hn.captures_eq
  unfold Captures.of at h
  obtain ⟨uses, hu, h⟩ := bind_eq_ok.1 h
  rw [← pure_eq_ok.1 h]
  exact ⟨uses, hu, rfl, rfl⟩

/-- Every name in a body refers to the function or to something around it. -/
theorem enclosed {useSite : DeclId} (hu : useSite ∈ n.program.preorder) {r : Reference}
    (hr : r ∈ n.program.references useSite) : r.Enclosed n.program useSite := by
  obtain ⟨uses, h, -⟩ := hn.exists_uses
  unfold Captures.uses at h
  obtain ⟨all, hall, -⟩ := bind_eq_ok.1 h
  obtain ⟨found, -, hfound⟩ := exists_of_mapM_eq_ok hall hu
  unfold Captures.usesIn at hfound
  obtain ⟨each, heach, -⟩ := bind_eq_ok.1 hfound
  obtain ⟨use, -, huse⟩ := exists_of_mapM_eq_ok heach hr
  exact Captures.enclosed_of_useOf huse

theorem summary?_eq {id : DeclId} {decl : Declaration} (hd : n.program.decl? id = some decl) :
    ∃ uses, n.captures.summary? id = some (Captures.summaryOf n.program uses decl) ∧
      n.captures.captured = (n.program.vars.toList.map Variable.id).filter
        (Captures.capturedBy uses) := by
  obtain ⟨uses, -, hs, hc⟩ := hn.exists_uses
  refine ⟨uses, ?_, hc⟩
  unfold Program.decl? at hd
  simp [Captures.summary?, hs, hd]

/-- Only functions have frames. -/
theorem isFunction_of_isFrameNeeded {id : DeclId} (h : n.captures.isFrameNeeded id = true) :
    n.program.isFunction id = true := by
  obtain ⟨uses, -, hs, -⟩ := hn.exists_uses
  unfold Captures.isFrameNeeded Captures.summary? at h
  rw [hs, Array.getElem?_map, Option.any_map, Option.any_eq_true] at h
  obtain ⟨decl, hd, h⟩ := h
  have hid : decl.id = id := hn.checked.decl_id hd
  simp only [Captures.summaryOf, Bool.and_eq_true, hid] at h
  exact h.1

/-- A function with a captured variable has a frame. -/
theorem isFrameNeeded_of_isCaptured {id : DeclId} {decl : Declaration} {function : FunctionDecl}
    (hd : n.program.decl? id = some decl) (hk : decl.kind = .function function) {x : VarId}
    (hx : x ∈ decl.locals) (hcap : n.captures.isCaptured x = true) :
    n.captures.isFrameNeeded id = true := by
  obtain ⟨uses, hs, hc⟩ := hn.summary?_eq hd
  have hfun : n.program.isFunction id = true :=
    Program.isFunction_iff.2 ⟨function, Program.function?_eq_some_iff.2 ⟨decl, hd, hk⟩⟩
  have hby : Captures.capturedBy uses x = true := by
    have := hcap
    rw [Captures.isCaptured, hc, List.contains_iff_mem, List.mem_filter] at this
    exact this.2
  unfold Captures.isFrameNeeded
  rw [hs, Option.any_some]
  simp only [Captures.summaryOf, hn.checked.decl_id hd, hfun, Bool.true_and, Bool.not_eq_true',
    List.isEmpty_eq_false_iff_exists_mem]
  exact ⟨x, List.mem_filter.2 ⟨hx, hby⟩⟩

/-! ## Layouts and plan -/

theorem layout_of {owner : DeclId} {l : Layout} (h : n.layouts.layout? owner = some l) :
    Layout.Of n.program n.captures l.struct owner l :=
  (Layouts.layout?_of_indexed (Layouts.indexed_of hn.checked hn.layouts_eq) h).1

theorem byStruct?_eq {owner : DeclId} {l : Layout} (h : n.layouts.layout? owner = some l) :
    n.layouts.byStruct? l.struct = some l :=
  (Layouts.layout?_of_indexed (Layouts.indexed_of hn.checked hn.layouts_eq) h).2

/-- A struct type has one owner. -/
theorem layout_eq_of_struct_eq {a b : DeclId} {l k : Layout} (hl : n.layouts.layout? a = some l)
    (hk : n.layouts.layout? b = some k) (h : l.struct = k.struct) : l = k ∧ a = b := by
  have heq : l = k := by
    have := hn.byStruct?_eq hl
    rw [h, hn.byStruct?_eq hk] at this
    exact (Option.some.inj this).symm
  refine ⟨heq, ?_⟩
  rw [← (hn.layout_of hl).owner_eq, ← (hn.layout_of hk).owner_eq, heq]

theorem plan_kind {owner : DeclId} {kind : Lir.AllocKind} (h : n.plan.kind? owner = some kind) :
    kind = FramePlan.kindOf n.program n.layouts policy owner := by
  unfold FramePlan.kind? at h
  obtain ⟨⟨owner', kind'⟩, hfind, rfl⟩ := Option.map_eq_some_iff.1 h
  have howner : owner' = owner := by simpa using List.find?_some hfind
  have hmem := List.mem_of_find?_eq_some hfind
  rw [hn.plan_eq] at hmem
  obtain ⟨o, -, ho⟩ := List.mem_map.1 hmem
  cases ho
  rw [howner]

/-! ## Chains -/

end Built

/-- The hops lead from one carrier to another, each over the link of the carrier before it. -/
inductive HopsTo (n : Nesting) : Option DeclId → List Chain.Hop → DeclId → Prop
  | nil (target : DeclId) : HopsTo n (some target) [] target
  | cons {through target : DeclId} {hop : Chain.Hop} {hops : List Chain.Hop} :
      n.hop through = .ok hop → HopsTo n (n.above through) hops target →
        HopsTo n (some through) (hop :: hops) target

/-- Where a chain of `useSite` starts. -/
def startOf (n : Nesting) (useSite : DeclId) : Chain.Start → Option DeclId
  | .ownFrame => some useSite
  | .incoming => n.above useSite

theorem hop_eq_ok {n : Nesting} {through : DeclId} {hop : Chain.Hop}
    (h : n.hop through = .ok hop) : ∃ l, n.layouts.layout? through = some l ∧
      hop.struct = l.struct ∧ l.linkSlot? = some hop.slot := by
  unfold Nesting.hop at h
  obtain ⟨l, hl, h⟩ := bind_eq_ok.1 h
  refine ⟨l, Layouts.getLayout_eq_ok.1 hl, ?_⟩
  cases hps : l.parentSlot with
  | some slot =>
    simp only [hps] at h
    rw [← pure_eq_ok.1 h]
    simp [Layout.linkSlot?, hps]
  | none =>
    cases hos : l.outerSlot with
    | some slot =>
      simp only [hps, hos] at h
      rw [← pure_eq_ok.1 h]
      simp [Layout.linkSlot?, hps, hos]
    | none => exact absurd (by simpa only [hps, hos] using h) throw_ne_ok

namespace Built

variable {n : Nesting} {policy : FramePolicy} (hn : n.Built policy)
include hn

theorem above_of_parent {id parent : DeclId} (h : n.program.parent? id = some parent) :
    n.above id = if n.captures.isCarrier n.program parent then some parent else n.above parent := by
  unfold above Captures.nearestCarrier?
  rw [h, Option.bind_some, List.find?_cons]
  by_cases hc : n.captures.isCarrier n.program parent = true
  · simp [hc]
  · simp only [hc]
    cases hpar : n.program.parent? parent with
    | none => simp [Program.Checked.ancestors_of_root hpar]
    | some up => simp [hn.checked.ancestors_of_parent hpar]

omit hn in
theorem above_of_root {id : DeclId} (h : n.program.parent? id = none) : n.above id = none := by
  simp [above, h]

/-- The carriers around a declaration up to a target are linked to one another. -/
theorem hopsTo_of_carriersTo {id target : DeclId} {carriers : List DeclId} {hops : List Chain.Hop}
    (h : n.carriersTo target (n.program.ancestors id) = some carriers)
    (hh : List.Forall₂ (fun through hop => n.hop through = .ok hop) carriers.dropLast hops) :
    HopsTo n (n.above id) hops target := by
  induction id using hn.checked.parent_induction generalizing carriers hops with
  | root id hroot => simp [carriersTo, Program.Checked.ancestors_of_root hroot] at h
  | nested id parent hpar ih =>
    rw [hn.checked.ancestors_of_parent hpar] at h
    rw [hn.above_of_parent hpar]
    by_cases hc : n.captures.isCarrier n.program parent = true
    · rw [if_pos hc]
      by_cases ht : parent = target
      · subst ht
        simp only [carriersTo, List.filter_cons, hc, if_true, List.contains_cons, beq_self_eq_true,
          Bool.true_or, bne_self_eq_false, List.takeWhile_cons, Bool.false_eq_true, if_false,
          List.nil_append, Option.some.injEq] at h
        subst h
        cases hh
        exact .nil parent
      · have hrest : ∃ rest, n.carriersTo target (n.program.ancestors parent) = some rest ∧
            carriers = parent :: rest := by
          have hbeq : (target == parent) = false := by simpa using fun e => ht e.symm
          simp only [carriersTo, List.filter_cons, hc, if_true, List.contains_cons, hbeq,
            Bool.false_or, List.takeWhile_cons, bne, beq_eq_false_iff_ne.2 ht, Bool.not_false,
            Option.ite_none_right_eq_some] at h ⊢
          obtain ⟨hmem, h⟩ := h
          refine ⟨_, ⟨hmem, rfl⟩, ?_⟩
          simpa using h.symm
        obtain ⟨rest, hrest, rfl⟩ := hrest
        have hne : rest ≠ [] := by
          intro hnil
          simp [carriersTo, hnil] at hrest
        rw [List.dropLast_cons_of_ne_nil hne] at hh
        obtain ⟨hop, hops', hhop, hhops, rfl⟩ := List.forall₂_cons_left_iff.1 hh
        exact .cons hhop (ih hrest hhops)
    · rw [if_neg hc]
      refine ih ?_ hh
      simpa [carriersTo, List.filter_cons, hc] using h

omit hn in
/-- The two ways in which a chain is found: at the use site itself, or around it. -/
theorem chainTo_eq_ok {useSite target : DeclId} {chain : Chain}
    (h : n.chainTo useSite target = .ok chain) :
    n.captures.isCarrier n.program target = true ∧
      ((target = useSite ∧ n.captures.isFrameNeeded useSite = true ∧
          chain.start = .ownFrame ∧ chain.hops = []) ∨
        ∃ carriers, n.carriersTo target (n.program.ancestors useSite) = some carriers ∧
          chain.start = (if n.captures.isFrameNeeded useSite then .ownFrame else .incoming) ∧
          List.Forall₂ (fun through hop => n.hop through = .ok hop)
            ((if n.captures.isFrameNeeded useSite then [useSite] else []) ++ carriers.dropLast)
            chain.hops) := by
  unfold chainTo at h
  by_cases hc : n.captures.isCarrier n.program target = true
  swap
  · simp only [hc, Bool.not_false, if_true] at h
    exact absurd h throw_bind_ne_ok
  refine ⟨hc, ?_⟩
  simp only [hc, Bool.not_true, Bool.false_eq_true, if_false] at h
  by_cases ht : target = useSite
  · refine Or.inl ⟨ht, ?_⟩
    by_cases hf : n.captures.isFrameNeeded useSite = true
    · simp only [ht, hf, if_true, Bool.not_true, Bool.false_eq_true, if_false] at h
      rw [← pure_eq_ok.1 h]
      exact ⟨hf, rfl, rfl⟩
    · simp only [ht, hf, if_true, Bool.not_false] at h
      exact absurd h throw_bind_ne_ok
  · rw [if_neg ht] at h
    cases hcs : n.carriersTo target (n.program.ancestors useSite) with
    | none => exact absurd (by simpa only [hcs] using h) throw_ne_ok
    | some carriers =>
      simp only [hcs] at h
      obtain ⟨hops, hhops, h⟩ := bind_eq_ok.1 h
      rw [← pure_eq_ok.1 h]
      exact Or.inr ⟨carriers, rfl, rfl, mapM_eq_ok.1 hhops⟩

/-- A chain starts at the frame of its use site if there is one, and leads to its target. -/
theorem hopsTo_of_chainTo {useSite target : DeclId} {chain : Chain}
    (h : n.chainTo useSite target = .ok chain) :
    HopsTo n (n.startOf useSite chain.start) chain.hops target := by
  obtain ⟨-, ⟨rfl, -, hs, hh⟩ | ⟨carriers, hcs, hs, hh⟩⟩ := chainTo_eq_ok h
  · rw [hs, hh]
    exact .nil target
  · by_cases hf : n.captures.isFrameNeeded useSite = true
    · simp only [hf, if_true, List.singleton_append] at hs hh
      rw [hs]
      obtain ⟨hop, hops, hhop, hhops, heq⟩ := List.forall₂_cons_left_iff.1 hh
      rw [heq]
      exact .cons hhop (hn.hopsTo_of_carriersTo hcs hhops)
    · simp only [hf, Bool.false_eq_true, if_false, List.nil_append] at hs hh
      rw [hs]
      exact hn.hopsTo_of_carriersTo hcs hh

omit hn in
theorem start_of_chainTo {useSite target : DeclId} {chain : Chain}
    (h : n.chainTo useSite target = .ok chain) :
    chain.start = .ownFrame ↔ n.captures.isFrameNeeded useSite = true := by
  obtain ⟨-, ⟨rfl, hf, hs, -⟩ | ⟨carriers, -, hs, -⟩⟩ := chainTo_eq_ok h
  · simp [hs, hf]
  · rw [hs]
    by_cases hf : n.captures.isFrameNeeded useSite = true <;> simp [hf]

end Built

end Nesting

end StaticChain

import StaticChain.Proofs.Availability
import StaticChain.Proofs.Meaning
import StaticChain.Proofs.WellFormed

/-!
# Links of the heap stay on the heap

Escape analysis decides for each frame by itself, from the bodies below its owner. The frames that it puts on
the heap are closed under links nevertheless (`Nesting.HeapClosed`). Two things make them so. What keeps a frame
keeps every frame around it, which is about frames alone. And wherever a body makes something that keeps a frame,
the owner of the frame is around the body, because capture analysis lets a body name only what is directly inside
a declaration around it (`Nesting.Built.mem_of_keepsFrame`). So the trigger is found from every owner that it
concerns.

Along the calls of a module, objects on the heap and closures then lead to objects on the heap only
(`Nesting.KeepsToHeap`), as long as no declaration lists a child twice. Where one does, functions do not stand at
their numbers, a call may enter another function than it names, and a frame of the stack may be kept
(`Nesting.not_keepsToHeap_mislaid`).
-/

namespace StaticChain

open Lir (ValueId FunctionId)
open Machine

/-! ## Expressions inside a body -/

variable {P : Expr → Bool}

theorem Expr.any_self {expr : Expr} (h : P expr = true) : expr.any P = true := by
  cases expr <;> simp [Expr.any, h]

theorem Expr.any_of_mem_operands {expr operand : Expr} (hmem : operand ∈ expr.operands)
    (h : operand.any P = true) : expr.any P = true := by
  have inList : ∀ {exprs : List Expr}, operand ∈ exprs → Expr.anyIn P exprs = true := fun hmem =>
    Expr.anyIn_eq_true.2 ⟨operand, hmem, h⟩
  cases expr with
  | int | bool | var | this | functionRef => simp [Expr.operands] at hmem
  | binary op lhs rhs =>
    rcases List.mem_pair.1 hmem with rfl | rfl <;> simp [Expr.any, h]
  | unary op e | fieldGet e field =>
    obtain rfl := List.mem_singleton.1 hmem
    simp [Expr.any, h]
  | call f args | new a args => simp [Expr.any, inList (show operand ∈ args from hmem)]
  | methodCall e f args | callValue e args =>
    rcases List.mem_cons.1 hmem with rfl | hmem
    · simp [Expr.any, h]
    · simp [Expr.any, inList hmem]

theorem Stmt.any_of_mem_operands {stmt : Stmt} {operand : Expr} (hmem : operand ∈ stmt.operands)
    (h : operand.any P = true) : stmt.any P = true := by
  cases stmt with
  | expr value => simp [Stmt.operands] at hmem
  | letVar x value =>
    obtain rfl := List.mem_singleton.1 hmem
    exact h
  | assign target value =>
    cases target with
    | var x =>
      obtain rfl := List.mem_singleton.1 hmem
      exact h
    | field base field => rcases List.mem_pair.1 hmem with rfl | rfl <;> simp [Stmt.any, h]
  | branch condition thenBlock elseBlock | loop condition body =>
    obtain rfl := List.mem_singleton.1 hmem
    simp [Stmt.any, h]
  | ret value =>
    obtain rfl : value = some operand := by simpa [Stmt.operands] using hmem
    exact h

theorem Stmt.any_of_mem_inner {stmt s : Stmt} (hmem : s ∈ stmt.inner) (h : s.any P = true) :
    stmt.any P = true := by
  have inBlock : ∀ {block : List Stmt}, s ∈ block → Stmt.anyIn P block = true := fun hmem =>
    Stmt.anyIn_eq_true.2 ⟨s, hmem, h⟩
  cases stmt with
  | letVar | assign | expr | ret => simp [Stmt.inner] at hmem
  | branch condition thenBlock elseBlock =>
    rcases List.mem_append.1 hmem with hmem | hmem <;> simp [Stmt.any, inBlock hmem]
  | loop condition body => simp [Stmt.any, inBlock (show s ∈ body from hmem)]

/-- An expression that is evaluated in a statement is one that a search through the statement comes to. -/
theorem Stmt.any_of_evaluates {stmt : Stmt} {expr : Expr} (heval : stmt.Evaluates expr)
    (h : expr.any P = true) : stmt.any P = true := by
  induction heval with
  | operand hmem => exact any_of_mem_operands hmem h
  | dropped => exact h
  | inner hmem _ ih => exact any_of_mem_inner hmem (ih h)
  | under _ hmem ih => exact ih (Expr.any_of_mem_operands hmem h)

/-- The body of the function evaluates the expression somewhere. -/
def Program.Makes (p : Program) (useSite : DeclId) (expr : Expr) : Prop :=
  ∃ function, p.function? useSite = some function ∧ ∃ stmt ∈ function.body, stmt.Evaluates expr

/-! ## Closed under links -/

namespace Nesting

variable {n : Nesting} {policy : FramePolicy} {a owner useSite carrier : DeclId}

/-- Objects on the heap, and the closures of all activations, lead to objects on the heap only. -/
structure KeepsToHeap (s : State) : Prop where
  slots : ∀ {o : ObjectId} {object : Object} {k : Nat} {v : Value}, s.store.objects[o.index]? = some object →
    object.kind = .heap → object.slots[k]? = some (some v) → v.Lasting s.store
  closures : ∀ {a : Activation} {target : FunctionId} {o : ObjectId}, a ∈ s.active :: s.callers.waiting →
    (∃ r, a.value r = .ok (.closure target (some o))) ∨ (∃ x, a.local x = .ok (.closure target (some o))) →
      s.store.OnHeapAt o

/-- The heap part of the plan is closed under links, for all that the bodies of the program make. -/
structure HeapClosed (n : Nesting) : Prop where
  frame : ∀ {owner a}, n.plan.kind? owner = some .heap → a ∈ n.program.ancestors owner →
    n.captures.isFrameNeeded a = true → n.plan.kind? a = some .heap
  made : ∀ {useSite aggregate args l a}, n.program.Makes useSite (.new aggregate args) →
    n.layouts.layout? aggregate = some l → l.outerSlot.isSome = true → a ∈ n.program.ancestors aggregate →
      n.captures.isFrameNeeded a = true → n.plan.kind? a = some .heap
  named : ∀ {useSite function a}, n.program.Makes useSite (.functionRef function) →
    a ∈ n.program.ancestors function → n.captures.isFrameNeeded a = true → n.plan.kind? a = some .heap
  /-- The parent link of a frame on the heap. -/
  parentLink : ∀ {owner carrier}, n.plan.kind? owner = some .heap → n.above owner = some carrier →
    n.plan.kind? carrier ≠ some .stack
  /-- The outer link of an instance that some body makes. -/
  outerLink : ∀ {useSite aggregate args l carrier}, n.program.Makes useSite (.new aggregate args) →
    n.layouts.layout? aggregate = some l → l.outerSlot.isSome = true → n.above aggregate = some carrier →
      n.plan.kind? carrier ≠ some .stack
  /-- The context of a closure that some body makes. -/
  context : ∀ {useSite function carrier}, n.program.Makes useSite (.functionRef function) →
    n.above function = some carrier → n.plan.kind? carrier ≠ some .stack

/-! ## The plan -/

namespace Built

section

variable (hn : n.Built policy)
include hn

/-- A frame that is needed is in the plan. -/
theorem plan_eq_of_isFrameNeeded (h : n.captures.isFrameNeeded a = true) :
    n.plan.kind? a = some (FramePlan.kindOf n.program n.layouts policy a) := by
  have hfun := hn.isFunction_of_isFrameNeeded h
  have hcarrier : n.captures.isCarrier n.program a = true := by simp [Captures.isCarrier, h]
  obtain ⟨l, hl⟩ := hn.exists_layout hcarrier
  have hmem : a ∈ ((n.layouts.layouts.toList.map Layout.owner).filter n.program.isFunction).eraseDups := by
    rw [List.mem_eraseDups, List.mem_filter, List.mem_map]
    refine ⟨⟨l, ?_, (hn.layout_of hl).owner_eq⟩, hfun⟩
    simpa using List.mem_of_find?_eq_some hl
  rw [hn.plan_eq, FramePlan.kind?_of]
  cases hfind : List.find? (· == a) _ with
  | none => exact absurd (List.find?_eq_none.1 hfind a hmem) (by simp)
  | some b =>
    obtain rfl : b = a := by simpa using List.find?_some hfind
    rfl

/-- A carrier that is no frame on the heap is no frame at all. -/
theorem not_stack_of_above {id : DeclId}
    (h : ∀ a ∈ n.program.ancestors id, n.captures.isFrameNeeded a = true → n.plan.kind? a = some .heap)
    (ha : n.above id = some carrier) : n.plan.kind? carrier ≠ some .stack := by
  obtain ⟨hmem, hcarrier⟩ := mem_of_above hn.checked ha
  rcases Bool.or_eq_true _ _ ▸ hcarrier with hagg | hneeded
  · intro hplan
    obtain ⟨function, hf⟩ := Program.isFunction_iff.1 (hn.isFunction_of_plan hplan)
    rw [Program.isAggregate_of_function hf] at hagg
    cases hagg
  · rw [h carrier hmem hneeded]
    nofun

/-- A body makes something that keeps a frame only below the owner of the frame. -/
theorem mem_of_keepsFrame {function : FunctionDecl} (hf : n.program.function? useSite = some function)
    (h : Stmt.anyIn (n.program.keepsFrame n.layouts owner) function.body = true) :
    owner ∈ useSite :: n.program.ancestors useSite := by
  obtain ⟨decl, hd, -⟩ := Program.function?_eq_some_iff.1 hf
  obtain ⟨e, hkeeps, -, hrefs⟩ := hn.checked.finds_of_anyIn hf h
  -- what is made is inside a declaration that the body is in, and the owner is around it
  have inside : ∀ {made : DeclId}, (∀ r ∈ n.program.parentReference made, r ∈ n.program.references useSite) →
      n.program.isNestedBelow owner made = true → owner ∈ useSite :: n.program.ancestors useSite := by
    intro made hmade hbelow
    have howner := (Program.isNestedBelow_iff hn.checked).1 hbelow
    cases hpar : n.program.parent? made with
    | none => simp [Program.Checked.ancestors_of_root hpar] at howner
    | some parent =>
      have hparent := parent_mem_of_enclosed
        (fun r hr => hn.enclosed (hn.checked.mem_preorder hd) (hmade r hr)) hpar
      rw [hn.checked.ancestors_of_parent hpar] at howner
      rcases List.mem_cons.1 howner with rfl | howner
      · exact hparent
      · rcases List.mem_cons.1 hparent with rfl | hparent
        · exact List.mem_cons_of_mem _ howner
        · exact List.mem_cons_of_mem _ (hn.checked.ancestors_trans howner hparent)
  cases e with
  | functionRef f => exact inside hrefs hkeeps
  | new aggregate args =>
    simp only [Program.keepsFrame, Bool.and_eq_true] at hkeeps
    exact inside (fun r hr => hrefs r (by simp [Program.exprReferences, hr])) hkeeps.2
  | _ => simp [Program.keepsFrame] at hkeeps

end

section

variable (hn : n.Built .escapeAnalysis)
include hn

theorem heap_of_frameEscapes (h : n.program.frameEscapes n.layouts a = true)
    (hneeded : n.captures.isFrameNeeded a = true) : n.plan.kind? a = some .heap := by
  rw [hn.plan_eq_of_isFrameNeeded hneeded, FramePlan.kindOf, if_pos h]

/-- What a body makes anywhere takes every frame to the heap that it can keep. -/
theorem heap_of_makes {expr : Expr} (hmakes : n.program.Makes useSite expr)
    (hkeeps : n.program.keepsFrame n.layouts a expr = true) (hneeded : n.captures.isFrameNeeded a = true) :
    n.plan.kind? a = some .heap := by
  obtain ⟨function, hf, stmt, hmem, heval⟩ := hmakes
  have hany : Stmt.anyIn (n.program.keepsFrame n.layouts a) function.body = true :=
    Stmt.anyIn_eq_true.2 ⟨stmt, hmem, Stmt.any_of_evaluates heval (Expr.any_self hkeeps)⟩
  refine hn.heap_of_frameEscapes (Program.frameEscapes_iff.2 ⟨useSite, function, ?_, hf, hany⟩) hneeded
  exact hn.checked.mem_preorderFrom (hn.mem_of_keepsFrame hf hany)

theorem heap_of_mem_ancestors (hk : n.plan.kind? owner = some .heap) (ha : a ∈ n.program.ancestors owner)
    (hneeded : n.captures.isFrameNeeded a = true) : n.plan.kind? a = some .heap := by
  have hesc : n.program.frameEscapes n.layouts owner = true := by
    by_contra hne
    simpa [FramePlan.kindOf, hne] using hn.plan_kind hk
  exact hn.heap_of_frameEscapes (Program.frameEscapes_of_mem_ancestors hn.checked ha hesc) hneeded

end

end Built

/-! ## The machine -/

/-- What a closure was given as its context may be kept. -/
theorem onHeapAt_of_held {s : Store} {reach : List ObjectId} {role : Role} {target : FunctionId} {o : ObjectId}
    (h : Held n s reach role (.closure target (some o))) : s.OnHeapAt o := by
  cases role with
  | value ty => exact h
  | context carrier =>
    rcases h with h | ⟨_, _, _, h, _⟩
    · exact h
    · cases h
  | address owner slot =>
    obtain ⟨_, h, _⟩ := h
    cases h

theorem exists_valuesHeld_of_waiting {s : Store} {dest : Option ValueId} {waiting : List Activation}
    (h : WaitingOk n s dest waiting) {a : Activation} (ha : a ∈ waiting) :
    ∃ reach Γ, ValuesHeld n s reach Γ a := by
  induction waiting generalizing dest with
  | nil => simp at ha
  | cons b rest ih =>
    obtain ⟨⟨Γ, ret, hvalues, -⟩, -, hrest⟩ := h
    rcases List.mem_cons.1 ha with rfl | ha
    · exact ⟨_, Γ, hvalues⟩
    · exact ih hrest ha

theorem keepsToHeap_of_owned {s : State} (h : Owned n s) : KeepsToHeap s := by
  obtain ⟨Γ, ret, howned, -⟩ := h
  refine ⟨fun ho hkind hv => (howned.heap _ _ ho hkind).2 _ _ hv, fun {a target o} ha hv => ?_⟩
  obtain ⟨reach, Δ, hvalues⟩ : ∃ reach Δ, ValuesHeld n s.store reach Δ a := by
    rcases List.mem_cons.1 ha with rfl | ha
    · exact ⟨_, Γ, howned.values⟩
    · exact exists_valuesHeld_of_waiting howned.waiting ha
  rcases hv with ⟨r, hr⟩ | ⟨x, hx⟩
  · exact onHeapAt_of_held (hvalues.value r _ hr)
  · exact onHeapAt_of_held (hvalues.local x _ hx)

/-- All along a call the discipline of frames is kept. -/
theorem Lowers.owned_of_reaches {machine : Machine} (hm : n.Lowers policy machine.module)
    (hheap : HeapOk machine.store) {s : State} (h : machine.Reaches s) : Owned n s := by
  induction h with
  | @enter name args s henter =>
    obtain ⟨a, c, store⟩ := s
    obtain rfl : c = .empty := henter.callers_eq
    obtain rfl : store = machine.store := henter.store_eq
    exact owned_of_enter hm hheap (hm.function?_of_findFunction? henter.found) henter.entered
  | step _ hstep ih => exact ih.step hm hstep

/-- The frames that escape analysis puts on the heap are closed under the links of frames, of instances that are
made and of functions that are named. Where no child is listed twice, all states that calls lead to keep to the
heap. -/
theorem heapClosed_of_check {p : Program} {n : Nesting} (h : p.check = .ok ())
    (hof : Nesting.of p .escapeAnalysis = .ok n) :
    n.HeapClosed ∧ (p.ChildrenDistinct → ∀ {m maxSteps machine s}, n.lower = .ok m →
      Machine.Called m maxSteps machine → machine.Reaches s → KeepsToHeap s) := by
  obtain ⟨rfl, hn⟩ := built_of_eq_ok (Program.checked_of_check h) hof
  have made : ∀ {useSite aggregate args l a}, n.program.Makes useSite (.new aggregate args) →
      n.layouts.layout? aggregate = some l → l.outerSlot.isSome = true → a ∈ n.program.ancestors aggregate →
        n.captures.isFrameNeeded a = true → n.plan.kind? a = some .heap := by
    intro useSite aggregate args l a hmakes hl houter ha hneeded
    refine hn.heap_of_makes hmakes ?_ hneeded
    simp [Program.keepsFrame, hl, houter, (Program.isNestedBelow_iff hn.checked).2 ha]
  have named : ∀ {useSite function a}, n.program.Makes useSite (.functionRef function) →
      a ∈ n.program.ancestors function → n.captures.isFrameNeeded a = true → n.plan.kind? a = some .heap :=
    fun hmakes ha hneeded => hn.heap_of_makes hmakes ((Program.isNestedBelow_iff hn.checked).2 ha) hneeded
  constructor
  · exact {
      frame := fun hk ha hneeded => hn.heap_of_mem_ancestors hk ha hneeded
      made
      named
      parentLink := fun hk => hn.not_stack_of_above fun a ha => hn.heap_of_mem_ancestors hk ha
      outerLink := fun hmakes hl houter => hn.not_stack_of_above fun a ha => made hmakes hl houter ha
      context := fun hmakes => hn.not_stack_of_above fun a ha => named hmakes ha }
  · intro hc m maxSteps machine s hlower hcalled hreaches
    have hm := lowers_of_lower hn hc hlower
    obtain ⟨hmodule, -⟩ := hcalled.module_eq hm
    exact keepsToHeap_of_owned ((hmodule ▸ hm).owned_of_reaches (hcalled.heapOk hm) hreaches)

/-- In the scene the outer frame is on the heap because the inner one is, and what is linked to it keeps to the
heap. -/
theorem heapClosed_of_check_scene : ∃ n m s, scene.check = .ok () ∧
    Nesting.of scene .escapeAnalysis = .ok n ∧ n.HeapClosed ∧
    n.plan.kind? ⟨3⟩ = some .heap ∧ n.plan.kind? ⟨0⟩ = some .heap ∧
    n.lower = .ok m ∧ (boot m 60).Reaches s ∧ s.store.objects = sceneObjects ∧ KeepsToHeap s := by
  obtain ⟨u, n, s, -, hn, hlower, hreaches, -, hobjects⟩ := exists_reaches_scene
  obtain ⟨hclosed, hkeeps⟩ := heapClosed_of_check scene_check hn
  obtain ⟨hprogram, -⟩ := built_of_eq_ok (Program.checked_of_check scene_check) hn
  have hfound : (Nesting.of scene .escapeAnalysis).toOption.any (fun n =>
      n.captures.isFrameNeeded ⟨0⟩ && n.plan.kind? ⟨3⟩ == some .heap) = true := by
    decide +kernel
  simp only [hn, Except.toOption, Option.any_some, Bool.and_eq_true, beq_iff_eq] at hfound
  have houter : n.plan.kind? ⟨0⟩ = some .heap := by
    refine hclosed.frame hfound.2 ?_ hfound.1
    rw [hprogram]
    decide
  exact ⟨n, u.lir, s, scene_check, hn, hclosed, hfound.2, houter, hlower, hreaches, hobjects,
    hkeeps scene_childrenDistinct hlower .boot hreaches⟩

/-! ## Children that are listed twice -/

/-- A program whose first function lists its only child twice. Functions are then found three places off their
numbers: the call of `named` enters `outer`, whose call of `inner` enters `reader`, with a frame on the stack as its
context. `reader` makes a closure with that context. -/
def mislaid : Program where
  declarations := #[
    ⟨⟨0⟩, "main", none, [], [⟨1⟩, ⟨1⟩], .function {
      params := []
      returnType := .function [] .int
      body := [.ret (some (.call ⟨7⟩ []))] }⟩,
    ⟨⟨1⟩, "counter", some ⟨0⟩, [⟨0⟩], [⟨2⟩, ⟨3⟩], .function {
      params := []
      returnType := .int
      body := [.letVar ⟨0⟩ (.int 1), .ret (some (.var ⟨0⟩))] }⟩,
    ⟨⟨2⟩, "reader", some ⟨1⟩, [], [], .function {
      params := []
      returnType := .function [] .int
      body := [.ret (some (.functionRef ⟨3⟩))] }⟩,
    ⟨⟨3⟩, "read", some ⟨1⟩, [], [], .function {
      params := []
      returnType := .int
      body := [.ret (some (.var ⟨0⟩))] }⟩,
    ⟨⟨4⟩, "outer", none, [⟨1⟩], [⟨5⟩], .function {
      params := []
      returnType := .function [] .int
      body := [.letVar ⟨1⟩ (.int 2), .ret (some (.call ⟨5⟩ []))] }⟩,
    ⟨⟨5⟩, "inner", some ⟨4⟩, [], [], .function {
      params := []
      returnType := .function [] .int
      body := [.expr (.var ⟨1⟩), .ret (some (.functionRef ⟨6⟩))] }⟩,
    ⟨⟨6⟩, "zero", none, [], [], .function {
      params := []
      returnType := .int
      body := [.ret (some (.int 0))] }⟩,
    ⟨⟨7⟩, "named", none, [], [], .function {
      params := []
      returnType := .function [] .int
      body := [.ret (some (.functionRef ⟨6⟩))] }⟩]
  vars := #[
    ⟨⟨0⟩, "count", .int, ⟨1⟩, .local⟩,
    ⟨⟨1⟩, "kept", .int, ⟨4⟩, .local⟩]

/-- The checks accept the program, and its first function returns a closure whose context is a frame of the stack
that was released. -/
theorem not_keepsToHeap_mislaid : mislaid.check = .ok () ∧ ¬mislaid.ChildrenDistinct ∧
    ∃ n m s, Nesting.of mislaid .escapeAnalysis = .ok n ∧ n.lower = .ok m ∧ (boot m 100).Reaches s ∧
      s.active.value ⟨0⟩ = .ok (.closure ⟨3⟩ (some ⟨0⟩)) ∧
      s.store.objects.map (fun o => (o.kind, o.live)) = #[(.stack, false)] ∧ ¬KeepsToHeap s ∧
      ((boot m 100).callByName "main" []).1 = .returned (some (.closure ⟨3⟩ (some ⟨0⟩))) := by
  refine ⟨by rfl, by decide, ?_⟩
  have hfound : (Nesting.of mislaid .escapeAnalysis).toOption.any (fun n => n.lower.toOption.any fun m =>
      ((boot m 100).stateAt? "main" [] 10).any (fun s =>
        s.active.value ⟨0⟩ = .ok (.closure ⟨3⟩ (some ⟨0⟩)) ∧
        s.store.objects.map (fun o => (o.kind, o.live)) = #[(.stack, false)]) ∧
      ((boot m 100).callByName "main" []).1 = .returned (some (.closure ⟨3⟩ (some ⟨0⟩)))) = true := by
    decide +kernel
  obtain ⟨n, hn⟩ := exists_of_isOk (show (Nesting.of mislaid .escapeAnalysis).isOk = true by decide +kernel)
  simp only [hn, Except.toOption, Option.any_some] at hfound
  split at hfound
  · rename_i m hlower
    simp only [Option.any_some, Option.any_eq_true, decide_eq_true_eq] at hfound
    obtain ⟨⟨s, hs, hvalue, hobjects⟩, hreturned⟩ := hfound
    refine ⟨n, m, s, hn, hlower, reaches_of_stateAt? hs, hvalue, hobjects, fun hkeeps => ?_, hreturned⟩
    obtain ⟨object, hobject, hkind⟩ := hkeeps.closures (List.mem_cons_self ..) (.inl ⟨_, hvalue⟩)
    have hstack := congrArg (·[0]?) hobjects
    simp [show s.store.objects[0]? = some object from hobject, hkind] at hstack
  · cases hfound

end Nesting

end StaticChain

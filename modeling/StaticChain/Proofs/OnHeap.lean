import StaticChain.Proofs.Lowered

/-!
# Everything on the heap

`Module.onHeap` is a module with every allocation moved to the heap and nothing else changed. The
policies differ by no more than that (`Nesting.lower_alwaysHeap`): lowering reads the plan only where
it writes the allocation of a frame, and never looks at what it has written before. The second half
of this is `Emit.Mirrors`: two actions do the same on builders that differ in allocation kinds, and
leave builders that differ in allocation kinds.
-/

namespace StaticChain

open Lir (Emit ValueId LocalId FunctionId StructId Inst Ty FunctionBuilder)

namespace Lir

mutual

/-- The instruction with all allocations inside it on the heap. -/
def Inst.onHeap : Inst → Inst
  | .alloc dest struct _ => .alloc dest struct .heap
  | .branch condition thenBody elseBody =>
    .branch condition (onHeapAll thenBody) (onHeapAll elseBody)
  | .loop header condition body => .loop (onHeapAll header) condition (onHeapAll body)
  | inst => inst

def onHeapAll : List Inst → List Inst
  | [] => []
  | inst :: rest => Inst.onHeap inst :: onHeapAll rest

end

theorem onHeapAll_eq (insts : List Inst) : onHeapAll insts = insts.map Inst.onHeap := by
  induction insts with
  | nil => rfl
  | cons inst insts ih => simp [onHeapAll, ih]

@[simp] theorem Inst.onHeap_branch (c : ValueId) (t e : List Inst) :
    (Inst.branch c t e).onHeap = .branch c (t.map Inst.onHeap) (e.map Inst.onHeap) := by
  simp [Inst.onHeap, onHeapAll_eq]

@[simp] theorem Inst.onHeap_loop (h : List Inst) (c : ValueId) (b : List Inst) :
    (Inst.loop h c b).onHeap = .loop (h.map Inst.onHeap) c (b.map Inst.onHeap) := by
  simp [Inst.onHeap, onHeapAll_eq]

/-- The function with all its allocations on the heap. -/
def Function.onHeap (f : Function) : Function := { f with body := f.body.map Inst.onHeap }

/-- The module with all its allocations on the heap. -/
def Module.onHeap (m : Module) : Module := { m with functions := m.functions.map Function.onHeap }

/-- The builder with all allocations that were written on the heap. -/
def FunctionBuilder.onHeap (b : FunctionBuilder) : FunctionBuilder where
  function := b.function
  block := b.block.map Inst.onHeap
  around := b.around.map (·.map Inst.onHeap)

/-! ## Actions that do not look at allocations -/

/-- The second action does on a builder with everything on the heap what the first does on the builder
itself. -/
def FunctionBuilder.Mirrors {α : Type} (x x' : StateM FunctionBuilder α) : Prop :=
  ∀ b : FunctionBuilder, x' b.onHeap = ((x b).1, (x b).2.onHeap)

/-- The same for actions that may fail. What they return may hold instructions, hence the map. -/
def Emit.Mirrors {α : Type} (f : α → α) (x x' : Emit α) : Prop :=
  ∀ b, @Eq (Except Defect α × FunctionBuilder) (x'.run b.onHeap)
    ((x.run b).1.map f, (x.run b).2.onHeap)

namespace Emit

variable {α β : Type}

theorem mirrors_bind_map {f : α → α} {g : β → β} {x x' : Emit α} {k k' : α → Emit β}
    (hx : Mirrors f x x') (hk : ∀ a, Mirrors g (k a) (k' (f a))) :
    Mirrors g (x >>= k) (x' >>= k') := by
  intro b
  have hx := hx b
  rw [ExceptT.run_bind, ExceptT.run_bind]
  simp only [bind, StateT.bind]
  rw [hx]
  cases h : x.run b with
  | mk res b₁ =>
    cases res with
    | error e => rfl
    | ok a => exact hk a b₁

theorem mirrors_bind {g : β → β} {x x' : Emit α} {k k' : α → Emit β} (hx : Mirrors id x x')
    (hk : ∀ a, Mirrors g (k a) (k' a)) : Mirrors g (x >>= k) (x' >>= k') :=
  mirrors_bind_map hx hk

theorem mirrors_pure {f : α → α} (a : α) : Mirrors f (pure a) (pure (f a)) := fun _ => rfl

theorem mirrors_of (x : Except Defect α) : Mirrors id (Emit.of x) (Emit.of x) := by
  intro b
  cases x <;> rfl

theorem mirrors_throw {f : α → α} (e : Defect) : Mirrors f (throw e : Emit α) (throw e) :=
  fun _ => rfl

theorem mirrors_throw_bind {g : β → β} (e : Defect) (k k' : α → Emit β) :
    Mirrors g (throw e >>= k) (throw e >>= k') := fun _ => rfl

theorem mirrors_map {f : α → α} {g : β → β} {x x' : Emit α} {k k' : α → β} (hx : Mirrors f x x')
    (hk : ∀ a, k' (f a) = g (k a)) : Mirrors g (k <$> x) (k' <$> x') := by
  rw [map_eq_pure_bind, map_eq_pure_bind]
  refine mirrors_bind_map hx fun a => ?_
  rw [hk]
  exact mirrors_pure _

theorem mirrors_lift {x x' : StateM FunctionBuilder α} (h : FunctionBuilder.Mirrors x x') :
    Mirrors id (liftM x : Emit α) (liftM x') := by
  intro b
  have hrun : ∀ (y : StateM FunctionBuilder α) (b : FunctionBuilder),
      @Eq (Except Defect α × FunctionBuilder) (ExceptT.run (liftM y : Emit α) b)
        (.ok (y b).1, (y b).2) := fun _ _ => rfl
  rw [hrun, hrun, h b]
  rfl

theorem mirrors_set {b b' : FunctionBuilder} (h : b' = b.onHeap) :
    Mirrors id (set b : Emit PUnit) (set b') := by
  subst h
  exact fun _ => rfl

/-- What is read from a builder may be anything but its instructions. -/
theorem mirrors_get_bind {g : β → β} {k k' : FunctionBuilder → Emit β}
    (hk : ∀ b, Mirrors g (k b) (k' b.onHeap)) : Mirrors g (get >>= k) (get >>= k') := by
  intro b
  exact hk b b

end Emit

namespace FunctionBuilder

open Emit

variable {α β : Type}

theorem Mirrors.bind {x x' : StateM FunctionBuilder α} {k k' : α → StateM FunctionBuilder β}
    (hx : Mirrors x x') (hk : ∀ a, Mirrors (k a) (k' a)) : Mirrors (x >>= k) (x' >>= k') := by
  intro b
  change (k' (x' b.onHeap).1) (x' b.onHeap).2 = _
  rw [hx b]
  exact hk _ _

theorem Mirrors.produce (ty : Ty) {inst inst' : ValueId → Inst}
    (h : ∀ dest, inst' dest = (inst dest).onHeap) :
    Mirrors (produce ty inst) (produce ty inst') := by
  intro b
  have hrun : ∀ (inst : ValueId → Inst) (b : FunctionBuilder), FunctionBuilder.produce ty inst b =
      ((fresh ty b).1, (FunctionBuilder.push (inst (fresh ty b).1) (fresh ty b).2).2) := fun _ _ => rfl
  rw [hrun, hrun]
  simp [fresh, FunctionBuilder.push, onHeap, h]

theorem Mirrors.push {inst inst' : Inst} (h : inst' = inst.onHeap) :
    Mirrors (push inst) (push inst') := by
  intro b
  simp [FunctionBuilder.push, onHeap, h]

theorem mirrors_produce (ty : Ty) {inst inst' : ValueId → Inst}
    (h : ∀ dest, inst' dest = (inst dest).onHeap) :
    Emit.Mirrors id (liftM (produce ty inst) : Emit ValueId) (liftM (produce ty inst')) :=
  mirrors_lift (.produce ty h)

theorem mirrors_push {inst inst' : Inst} (h : inst' = inst.onHeap) :
    Emit.Mirrors id (liftM (push inst) : Emit Unit) (liftM (push inst')) :=
  mirrors_lift (.push h)

theorem mirrors_produceIf (ty : Option Ty) {inst : Option ValueId → Inst}
    (h : ∀ dest, (inst dest).onHeap = inst dest) :
    Emit.Mirrors id (liftM (produceIf ty inst) : Emit (Option ValueId))
      (liftM (produceIf ty inst)) := by
  refine mirrors_lift fun b => ?_
  cases ty with
  | none =>
    have hrun : ∀ b, produceIf none inst b = (none, (FunctionBuilder.push (inst none) b).2) := fun _ => rfl
    rw [hrun, hrun]
    simp [FunctionBuilder.push, onHeap, h]
  | some ty =>
    have hrun : ∀ b, produceIf (some ty) inst b = (some (fresh ty b).1,
        (FunctionBuilder.push (inst (some (fresh ty b).1)) (fresh ty b).2).2) := fun _ => rfl
    rw [hrun, hrun]
    simp [fresh, FunctionBuilder.push, onHeap, h]

theorem mirrors_addLocal (ty : Ty) :
    Emit.Mirrors id (liftM (addLocal ty) : Emit LocalId) (liftM (addLocal ty)) :=
  mirrors_lift fun _ => rfl

theorem mirrors_localGet (x : LocalId) : Emit.Mirrors id (localGet x) (localGet x) := by
  refine mirrors_get_bind fun b => ?_
  have hlocals : b.onHeap.function.locals = b.function.locals := rfl
  simp only [hlocals]
  cases b.function.locals[x.index]? with
  | none => exact mirrors_throw _
  | some ty => exact mirrors_produce ty fun dest => rfl

theorem mirrors_inBlock {x x' : Emit α} (hx : Emit.Mirrors id x x') :
    Emit.Mirrors (Prod.map id (List.map Inst.onHeap)) (inBlock x) (inBlock x') := by
  refine mirrors_bind (mirrors_lift fun b => ?_) fun _ => ?_
  · simp [beginBlock, onHeap]
  refine mirrors_bind hx fun a => ?_
  refine mirrors_bind_map (f := List.map Inst.onHeap) ?_ fun body => mirrors_pure (a, body)
  refine mirrors_get_bind fun b => ?_
  cases h : b.around with
  | nil =>
    have : b.onHeap.around = [] := by simp [onHeap, h]
    simp only [this]
    exact mirrors_throw _
  | cons outer around =>
    have : b.onHeap.around = outer.map Inst.onHeap :: around.map (·.map Inst.onHeap) := by
      simp [onHeap, h]
    simp only [this]
    refine mirrors_bind (mirrors_set ?_) fun _ => ?_
    · simp [onHeap]
    · have hbody : b.onHeap.block.toList = b.block.toList.map Inst.onHeap := by simp [onHeap]
      rw [hbody]
      exact mirrors_pure _

end FunctionBuilder

end Lir

open Lir.Emit Lir.FunctionBuilder

/-! ## Chains, frames and instances -/

namespace Nesting

variable (n : Nesting) (plan : FramePlan)

/-- The tables with another plan. -/
def replan : Nesting := { n with plan }

theorem mirrors_emitHops (pointer : ValueId) (hops : List Chain.Hop) :
    FunctionBuilder.Mirrors (emitHops pointer hops) (emitHops pointer hops) := by
  induction hops generalizing pointer with
  | nil => exact fun _ => rfl
  | cons hop hops ih =>
    exact .bind (.produce _ fun _ => rfl) fun addr => .bind (.produce _ fun _ => rfl) fun next =>
      ih next

theorem mirrors_emitChain (v : Vantage) (chain : Chain) :
    Mirrors id (emitChain v chain) (emitChain v chain) :=
  mirrors_bind (mirrors_of _) fun pointer => mirrors_lift (mirrors_emitHops pointer chain.hops)

theorem mirrors_emitContextPointer (v : Vantage) (target : DeclId) :
    Mirrors id (n.emitContextPointer v target) (n.emitContextPointer v target) :=
  mirrors_bind (mirrors_of _) fun chain => mirrors_emitChain v chain

theorem mirrors_emitVariableAddress (v : Vantage) (x : VarId) :
    Mirrors id (n.emitVariableAddress v x) (n.emitVariableAddress v x) := by
  refine mirrors_bind (mirrors_of _) fun resolution => ?_
  cases resolution with
  | «local» y => exact mirrors_pure _
  | slot chain struct slot ty =>
    refine mirrors_bind (mirrors_emitChain v chain) fun carrier => ?_
    exact mirrors_bind (mirrors_produce _ fun _ => rfl) fun addr => mirrors_pure _

theorem mirrors_emitCallContext (v : Vantage) (callee : DeclId) :
    Mirrors id (n.emitCallContext v callee) (n.emitCallContext v callee) := by
  refine mirrors_bind (mirrors_of _) fun context => ?_
  cases context with
  | none => exact mirrors_pure _
  | null => exact mirrors_map (mirrors_produce _ fun _ => rfl) fun _ => rfl
  | chain chain => exact mirrors_map (mirrors_emitChain v chain) fun _ => rfl
  | receiver => exact mirrors_throw _

theorem mirrors_emitConstructionContext (v : Vantage) (aggregate : DeclId) :
    Mirrors id (n.emitConstructionContext v aggregate) (n.emitConstructionContext v aggregate) := by
  refine mirrors_bind (mirrors_of _) fun context => ?_
  cases context with
  | none => exact mirrors_pure _
  | null => exact mirrors_map (mirrors_produce _ fun _ => rfl) fun _ => rfl
  | chain chain => exact mirrors_map (mirrors_emitChain v chain) fun _ => rfl
  | receiver => exact mirrors_throw _

theorem mirrors_emitClosureContext (v : Vantage) (target : DeclId) :
    Mirrors id (n.emitClosureContext v target) (n.emitClosureContext v target) := by
  refine mirrors_bind (mirrors_of _) fun context => ?_
  cases context with
  | none => exact mirrors_produce _ fun _ => rfl
  | null => exact mirrors_produce _ fun _ => rfl
  | chain chain => exact mirrors_emitChain v chain
  | receiver => exact mirrors_throw _

theorem mirrors_emitParams (layout : Layout) (frame : ValueId) (params : List (VarId × ValueId)) :
    Mirrors id (n.emitParams layout frame params)
      ((n.replan plan).emitParams layout frame params) := by
  induction params with
  | nil => exact mirrors_pure _
  | cons param params ih =>
    obtain ⟨x, value⟩ := param
    have hcaptures : (n.replan plan).captures = n.captures := rfl
    simp only [emitParams, hcaptures]
    split
    · split
      · exact mirrors_throw_bind _ _ _
      · exact mirrors_bind (mirrors_produce _ fun _ => rfl) fun addr =>
          mirrors_bind (mirrors_push rfl) fun _ => ih
    · exact ih

theorem mirrors_emitFields (struct : StructId) (object : ValueId)
    (fields : List ((Layout.Slot × Nat) × ValueId)) :
    FunctionBuilder.Mirrors (emitFields struct object fields) (emitFields struct object fields) := by
  induction fields with
  | nil => exact fun _ => rfl
  | cons field fields ih =>
    obtain ⟨⟨slot, index⟩, value⟩ := field
    exact .bind (.produce _ fun _ => rfl) fun addr => .bind (.push rfl) fun _ => ih

theorem mirrors_emitInstance (aggregate : DeclId) (outer : Option ValueId) (fields : List ValueId) :
    Mirrors id (n.emitInstance aggregate outer fields) (n.emitInstance aggregate outer fields) := by
  refine mirrors_bind (mirrors_of _) fun layout => ?_
  have hrest : ∀ (object : ValueId) (slots : List (Layout.Slot × Nat)), Mirrors id
      (do
        emitFields layout.struct object (slots.zip fields)
        return object : Emit ValueId)
      (do
        emitFields layout.struct object (slots.zip fields)
        return object) :=
    fun object slots => mirrors_bind (mirrors_lift (mirrors_emitFields _ _ _)) fun _ => mirrors_pure _
  simp only
  split
  · exact mirrors_throw_bind _ _ _
  refine mirrors_bind (mirrors_produce _ fun _ => rfl) fun object => ?_
  split
  · exact hrest object _
  · exact mirrors_throw_bind _ _ _
  · exact mirrors_throw_bind _ _ _
  · exact mirrors_bind (mirrors_produce _ fun _ => rfl) fun addr =>
      mirrors_bind (mirrors_push rfl) fun _ => hrest object _

/-- A function is entered in the same way wherever its frame lives. -/
theorem mirrors_enterFunction (hplan : ∀ owner, plan.kind? owner =
    (n.plan.kind? owner).map fun _ => .heap) (decl : DeclId) (incoming : Option ValueId)
    (params : List (VarId × ValueId)) :
    Mirrors id (n.enterFunction decl incoming params)
      ((n.replan plan).enterFunction decl incoming params) := by
  have hrest : ∀ (layout : Layout) (frame : ValueId), Mirrors id
      (do
        n.emitParams layout frame params
        return ({ decl, frame := some frame, incoming } : Vantage) : Emit Vantage)
      (do
        (n.replan plan).emitParams layout frame params
        return { decl, frame := some frame, incoming }) :=
    fun layout frame => mirrors_bind (n.mirrors_emitParams plan layout frame params) fun _ =>
      mirrors_pure _
  unfold enterFunction
  have hcaptures : (n.replan plan).captures = n.captures := rfl
  rw [hcaptures]
  split
  · exact mirrors_pure _
  refine mirrors_bind (mirrors_of _) fun layout => ?_
  have hkind : (n.replan plan).plan.kind? decl = (n.plan.kind? decl).map fun _ => .heap := hplan decl
  rw [hkind]
  cases n.plan.kind? decl with
  | none => exact mirrors_throw _
  | some kind =>
    refine mirrors_bind (mirrors_produce _ fun _ => rfl) fun frame => ?_
    split
    · exact hrest layout frame
    · exact mirrors_throw_bind _ _ _
    · exact mirrors_bind (mirrors_produce _ fun _ => rfl) fun addr =>
        mirrors_bind (mirrors_push rfl) fun _ => hrest layout frame

end Nesting

/-! ## Bodies -/

namespace Scope

variable (s : Scope) (plan : FramePlan)

/-- The scope with another plan. -/
def replan : Scope := { s with nesting := s.nesting.replan plan }

theorem mirrors_readVariable (x : VarId) :
    Mirrors id (s.readVariable x) (s.readVariable x) := by
  refine mirrors_bind (mirrors_of _) fun v => ?_
  refine mirrors_bind (s.nesting.mirrors_emitVariableAddress v x) fun address => ?_
  cases address with
  | «local» y => exact mirrors_bind (mirrors_of _) fun l => mirrors_localGet l
  | slot addr ty => exact mirrors_produce _ fun _ => rfl

theorem mirrors_writeVariable (x : VarId) (value : ValueId) :
    Mirrors id (s.writeVariable x value) (s.writeVariable x value) := by
  refine mirrors_bind (mirrors_of _) fun v => ?_
  refine mirrors_bind (s.nesting.mirrors_emitVariableAddress v x) fun address => ?_
  cases address with
  | «local» y => exact mirrors_bind (mirrors_of _) fun l => mirrors_push rfl
  | slot addr ty => exact mirrors_push rfl

theorem mirrors_fieldAddress (base : ValueId) (field : VarId) :
    Mirrors id (s.fieldAddress base field) (s.fieldAddress base field) := by
  refine mirrors_bind (mirrors_of _) fun found => ?_
  exact mirrors_bind (mirrors_produce _ fun _ => rfl) fun _ => mirrors_pure _

theorem mirrors_emitCall (function : DeclId) (args : List ValueId) :
    Mirrors id (s.emitCall function args) (s.emitCall function args) := by
  refine mirrors_bind (mirrors_of _) fun target => mirrors_bind (mirrors_of _) fun decl => ?_
  exact mirrors_produceIf _ fun _ => rfl

variable {s}

theorem mirrors_valued {x x' : Emit (Option ValueId)} (h : Mirrors id x x') :
    Mirrors id (s.valued x) (s.valued x') :=
  mirrors_bind h fun _ => mirrors_of _

theorem mirrors_settingBlock (result : LocalId) {x x' : Emit ValueId} (h : Mirrors id x x') :
    Mirrors (List.map Inst.onHeap) (settingBlock result x) (settingBlock result x') := by
  refine mirrors_bind_map (mirrors_inBlock (mirrors_bind h fun value => mirrors_push rfl)) ?_
  exact fun found => mirrors_pure _

theorem mirrors_shortCircuit (conjunction : Bool) {l l' r r' : Emit ValueId} (hl : Mirrors id l l')
    (hr : Mirrors id r r') : Mirrors id (shortCircuit conjunction l r)
      (shortCircuit conjunction l' r') := by
  have hconst : ∀ x : Int64, Mirrors id (liftM (const x) : Emit ValueId) (liftM (const x)) :=
    fun x => mirrors_produce _ fun _ => rfl
  refine mirrors_bind (mirrors_addLocal _) fun result => mirrors_bind hl fun condition => ?_
  refine mirrors_bind_map (mirrors_settingBlock result ?_) fun thenBody => ?_
  · cases conjunction
    · exact hconst 1
    · exact hr
  refine mirrors_bind_map (mirrors_settingBlock result ?_) fun elseBody => ?_
  · cases conjunction
    · exact hr
    · exact hconst 0
  exact mirrors_bind (mirrors_push (Inst.onHeap_branch _ _ _).symm) fun _ => mirrors_localGet result

theorem mirrors_lowerValues_of {args : List Expr}
    (ih : ∀ arg ∈ args, Mirrors id (s.lowerExpr arg) ((s.replan plan).lowerExpr arg)) :
    Mirrors id (s.lowerValues args) ((s.replan plan).lowerValues args) := by
  induction args with
  | nil => exact mirrors_pure _
  | cons arg args iha =>
    simp only [lowerValues]
    refine mirrors_bind (mirrors_valued (ih arg (by simp))) fun value => ?_
    exact mirrors_bind (iha fun arg h => ih arg (by simp [h])) fun values => mirrors_pure _

theorem mirrors_lowerExpr (expr : Expr) :
    Mirrors id (s.lowerExpr expr) ((s.replan plan).lowerExpr expr) := by
  induction expr using Expr.ind with
  | int value =>
    simp only [lowerExpr]
    exact mirrors_map (mirrors_produce _ fun _ => rfl) fun _ => rfl
  | bool value =>
    simp only [lowerExpr]
    exact mirrors_map (mirrors_produce _ fun _ => rfl) fun _ => rfl
  | var x =>
    simp only [lowerExpr]
    exact mirrors_map (mirrors_readVariable s x) fun _ => rfl
  | binary op lhs rhs ihl ihr =>
    simp only [lowerExpr]
    split
    · exact mirrors_map (mirrors_shortCircuit true (mirrors_valued ihl) (mirrors_valued ihr)) fun _ =>
        rfl
    · exact mirrors_map (mirrors_shortCircuit false (mirrors_valued ihl) (mirrors_valued ihr)) fun _ =>
        rfl
    · refine mirrors_bind (mirrors_valued ihl) fun l => mirrors_bind (mirrors_valued ihr) fun r => ?_
      exact mirrors_map (mirrors_produce _ fun _ => rfl) fun _ => rfl
  | unary op operand ih =>
    simp only [lowerExpr]
    refine mirrors_bind (mirrors_valued ih) fun r => ?_
    exact mirrors_map (mirrors_produce _ fun _ => rfl) fun _ => rfl
  | call function args ih =>
    simp only [lowerExpr]
    refine mirrors_bind (mirrors_of _) fun v => ?_
    refine mirrors_bind (s.nesting.mirrors_emitCallContext v function) fun context => ?_
    refine mirrors_bind (mirrors_lowerValues_of plan ih) fun values => ?_
    exact mirrors_emitCall s function _
  | methodCall receiver method args ihr ih =>
    simp only [lowerExpr]
    refine mirrors_bind (mirrors_valued ihr) fun r => ?_
    refine mirrors_bind (mirrors_lowerValues_of plan ih) fun values => ?_
    exact mirrors_emitCall s method _
  | new aggregate args ih =>
    simp only [lowerExpr]
    refine mirrors_bind (mirrors_lowerValues_of plan ih) fun fields => ?_
    refine mirrors_bind (mirrors_of _) fun v => ?_
    refine mirrors_bind (s.nesting.mirrors_emitConstructionContext v aggregate) fun outer => ?_
    exact mirrors_map (s.nesting.mirrors_emitInstance aggregate outer fields) fun _ => rfl
  | fieldGet base field ih =>
    simp only [lowerExpr]
    refine mirrors_bind (mirrors_valued ih) fun r => ?_
    refine mirrors_bind (mirrors_fieldAddress s r field) fun found => ?_
    exact mirrors_map (mirrors_produce _ fun _ => rfl) fun _ => rfl
  | this aggregate =>
    simp only [lowerExpr]
    refine mirrors_bind (mirrors_of _) fun v => ?_
    exact mirrors_map (s.nesting.mirrors_emitContextPointer v aggregate) fun _ => rfl
  | functionRef function =>
    simp only [lowerExpr]
    refine mirrors_bind (mirrors_of _) fun v => ?_
    refine mirrors_bind (s.nesting.mirrors_emitClosureContext v function) fun context => ?_
    refine mirrors_bind (mirrors_of _) fun target => ?_
    exact mirrors_map (mirrors_produce _ fun _ => rfl) fun _ => rfl
  | callValue callee args ihc ih =>
    simp only [lowerExpr]
    refine mirrors_bind (mirrors_of _) fun signature => ?_
    refine mirrors_bind (mirrors_valued ihc) fun closure => ?_
    refine mirrors_bind (mirrors_lowerValues_of plan ih) fun values => ?_
    exact mirrors_produceIf _ fun _ => rfl

theorem mirrors_lowerBlock_of {block : List Stmt}
    (ih : ∀ stmt ∈ block, Mirrors id (s.lowerStmt stmt) ((s.replan plan).lowerStmt stmt)) :
    Mirrors id (s.lowerBlock block) ((s.replan plan).lowerBlock block) := by
  induction block with
  | nil => exact mirrors_pure _
  | cons stmt block ihb =>
    simp only [lowerBlock]
    exact mirrors_bind (ih stmt (by simp)) fun _ => ihb fun stmt h => ih stmt (by simp [h])

theorem mirrors_lowerStmt (stmt : Stmt) :
    Mirrors id (s.lowerStmt stmt) ((s.replan plan).lowerStmt stmt) := by
  have value : ∀ expr : Expr, Mirrors id (s.lowerValue expr) ((s.replan plan).lowerValue expr) :=
    fun expr => mirrors_valued (mirrors_lowerExpr plan expr)
  induction stmt using Stmt.ind with
  | letVar x expr =>
    simp only [lowerStmt]
    exact mirrors_bind (value expr) fun r => mirrors_writeVariable s x r
  | assign target expr =>
    cases target with
    | var x =>
      simp only [lowerStmt]
      exact mirrors_bind (value expr) fun r => mirrors_writeVariable s x r
    | field base field =>
      simp only [lowerStmt]
      refine mirrors_bind (value base) fun o => mirrors_bind (value expr) fun r => ?_
      exact mirrors_bind (mirrors_fieldAddress s o field) fun found => mirrors_push rfl
  | expr expr =>
    simp only [lowerStmt]
    exact mirrors_bind (mirrors_lowerExpr plan expr) fun _ => mirrors_pure _
  | branch condition thenBlock elseBlock iht ihe =>
    simp only [lowerStmt]
    refine mirrors_bind (value condition) fun r => ?_
    refine mirrors_bind_map (mirrors_inBlock (mirrors_lowerBlock_of plan iht)) fun thenBody => ?_
    refine mirrors_bind_map (mirrors_inBlock (mirrors_lowerBlock_of plan ihe)) fun elseBody => ?_
    exact mirrors_push (Inst.onHeap_branch _ _ _).symm
  | loop condition body ih =>
    simp only [lowerStmt]
    refine mirrors_bind_map (mirrors_inBlock (value condition)) fun header => ?_
    refine mirrors_bind_map (mirrors_inBlock (mirrors_lowerBlock_of plan ih)) fun body => ?_
    exact mirrors_push (Inst.onHeap_loop _ _ _).symm
  | ret expr =>
    cases expr with
    | none =>
      simp only [lowerStmt]
      exact mirrors_push rfl
    | some expr =>
      simp only [lowerStmt]
      exact mirrors_bind (value expr) fun r => mirrors_push rfl

theorem mirrors_lowerBody (function : FunctionDecl) :
    Mirrors id (s.lowerBody function) ((s.replan plan).lowerBody function) := by
  refine mirrors_bind (mirrors_lowerBlock_of plan fun stmt _ => mirrors_lowerStmt plan stmt) fun _ => ?_
  refine mirrors_push ?_
  split <;> rfl

/-! ## Functions and modules -/

theorem mirrors_bindParams (index : Nat) (params : List VarId) :
    Mirrors id (s.bindParams index params) ((s.replan plan).bindParams index params) := by
  induction params generalizing index with
  | nil => exact mirrors_pure _
  | cons param params ih =>
    simp only [bindParams]
    refine mirrors_get_bind fun b => ?_
    have hcaptures : (s.replan plan).nesting.captures = s.nesting.captures := rfl
    rw [hcaptures]
    split
    · refine mirrors_bind (mirrors_localGet _) fun value => ?_
      exact mirrors_bind (ih _) fun found => mirrors_pure _
    · exact mirrors_bind (ih _) fun found => mirrors_pure _

theorem mirrors_bindLocals (xs : List VarId) :
    Mirrors id (s.bindLocals xs) ((s.replan plan).bindLocals xs) := by
  induction xs with
  | nil => exact mirrors_pure _
  | cons x xs ih =>
    simp only [bindLocals]
    have hcaptures : (s.replan plan).nesting.captures = s.nesting.captures := rfl
    rw [hcaptures]
    split
    · exact ih
    · refine mirrors_bind (mirrors_of _) fun ty => mirrors_bind (mirrors_addLocal ty) fun added => ?_
      exact mirrors_bind ih fun locals => mirrors_pure _

theorem mirrors_bindVariables (decl : Declaration) (function : FunctionDecl) :
    Mirrors id (s.bindVariables decl function) ((s.replan plan).bindVariables decl function) := by
  refine mirrors_get_bind fun b => ?_
  have hcontext : b.onHeap.function.contextLocal? = b.function.contextLocal? := rfl
  rw [hcontext]
  have hrest : ∀ incoming : Option ValueId, Mirrors id
      (do
        let found ← s.bindParams 0 function.params
        let locals ← s.bindLocals (decl.locals.drop function.params.length)
        return (incoming, found.1, found.2 ++ locals) : Emit _)
      (do
        let found ← (s.replan plan).bindParams 0 function.params
        let locals ← (s.replan plan).bindLocals (decl.locals.drop function.params.length)
        return (incoming, found.1, found.2 ++ locals)) := by
    intro incoming
    refine mirrors_bind (mirrors_bindParams plan 0 function.params) fun found => ?_
    exact mirrors_bind (mirrors_bindLocals plan _) fun locals => mirrors_pure _
  split
  · refine mirrors_bind (mirrors_map (mirrors_localGet _) fun _ => rfl) hrest
  · exact mirrors_bind (mirrors_pure _) hrest

theorem finish_onHeap (b : FunctionBuilder) :
    b.onHeap.finish = b.finish.map Lir.Function.onHeap := by
  unfold FunctionBuilder.finish
  cases h : b.around with
  | nil => simp [FunctionBuilder.onHeap, h, Except.map, Lir.Function.onHeap]
  | cons outer around => simp [FunctionBuilder.onHeap, h, Except.map]

/-- Without any change of the plan but to the heap, a function is lowered to the same code up to
allocation kinds. -/
theorem lowerFunction_replan (hplan : ∀ owner, plan.kind? owner =
    (s.nesting.plan.kind? owner).map fun _ => .heap) (id : DeclId) :
    ((s.replan plan).lowerFunction id).1 = (s.lowerFunction id).1.map Lir.Function.onHeap := by
  unfold lowerFunction
  have hprogram : (s.replan plan).nesting.program = s.nesting.program := rfl
  simp only [hprogram]
  split
  · rfl
  rename_i decl function _
  have hstart : (s.replan plan).reset.startFunction decl function =
      s.reset.startFunction decl function := rfl
  rw [hstart]
  split
  · rfl
  rename_i b hb
  obtain ⟨target, params, -, -, rfl⟩ := startFunction_eq_ok hb
  generalize hb : FunctionBuilder.start _ _ _ _ _ _ = b
  have hempty : b.onHeap = b := by
    rw [← hb]
    simp [FunctionBuilder.start, FunctionBuilder.onHeap]
  have hbind := mirrors_bindVariables (s := s.reset) plan decl function b
  rw [hempty] at hbind
  have hreset : (s.replan plan).reset = s.reset.replan plan := rfl
  rw [hreset, hbind]
  rcases (s.reset.bindVariables decl function).run b with ⟨defect | ⟨incoming, arrived, locals⟩, b₁⟩
  · rfl
  have henter := s.nesting.mirrors_enterFunction plan hplan id incoming arrived b₁
  have hscopes : (s.reset.replan plan).nesting = s.nesting.replan plan ∧
      (s.reset.replan plan).functions = s.functions ∧ s.reset.nesting = s.nesting ∧
      s.reset.functions = s.functions := ⟨rfl, rfl, rfl, rfl⟩
  simp only [Except.map, id_eq, hscopes]
  rw [henter]
  rcases (s.nesting.enterFunction id incoming arrived).run b₁ with ⟨defect | v, b₂⟩
  · rfl
  have hbody := mirrors_lowerBody (s := ⟨s.nesting, s.functions, locals, some v⟩) plan function b₂
  have hscope : Scope.replan ⟨s.nesting, s.functions, locals, some v⟩ plan =
      ⟨s.nesting.replan plan, s.functions, locals, some v⟩ := rfl
  rw [hscope] at hbody
  simp only [Except.map, id_eq]
  rw [hbody]
  rcases (lowerBody ⟨s.nesting, s.functions, locals, some v⟩ function).run b₂ with ⟨defect | _, b₃⟩
  · rfl
  · exact finish_onHeap b₃

end Scope

namespace FramePlan

variable {p : Program} {layouts : Layouts}

theorem kind?_of (policy : FramePolicy) (owner : DeclId) :
    (FramePlan.of p layouts policy).kind? owner =
      (((layouts.layouts.toList.map Layout.owner).filter p.isFunction).eraseDups.find?
        (· == owner)).map (kindOf p layouts policy) := by
  unfold kind? of
  rw [List.find?_map]
  simp [Function.comp_def]

theorem kind?_alwaysHeap (policy : FramePolicy) (owner : DeclId) :
    (FramePlan.of p layouts .alwaysHeap).kind? owner =
      ((FramePlan.of p layouts policy).kind? owner).map fun _ => .heap := by
  rw [kind?_of, kind?_of policy, Option.map_map]
  rfl

end FramePlan

namespace Nesting

variable {n : Nesting} {policy : FramePolicy}

theorem lower_replan (hp : n.program.Checked) (hc : n.program.ChildrenDistinct) (plan : FramePlan)
    (hplan : ∀ owner, plan.kind? owner = (n.plan.kind? owner).map fun _ => .heap) :
    (n.replan plan).lower = n.lower.map Lir.Module.onHeap := by
  have hscope : (n.replan plan).scope = n.scope.replan plan := by
    rw [scope_eq hp hc, scope_eq (n := n.replan plan) hp hc]
    rfl
  have hnesting : n.scope.nesting = n := by rw [scope_eq hp hc]
  have hlowered : (n.replan plan).lowered = n.lowered.map (Except.map Lir.Function.onHeap) := by
    unfold lowered
    rw [List.map_map, hscope]
    refine List.map_congr_left fun id _ => ?_
    rw [Function.comp_apply, Scope.lowerFunction_replan plan (by rwa [hnesting])]
  have hdefects : ∀ defect? : Except Defect Lir.Function → Option Defect,
      (∀ result, defect? (result.map Lir.Function.onHeap) = defect? result) →
      (n.replan plan).lowered.filterMap defect? = n.lowered.filterMap defect? := by
    intro defect? h
    rw [hlowered, List.filterMap_map]
    exact List.filterMap_congr fun result _ => h result
  have hfunctions : (n.replan plan).lowered.filterMap Except.toOption =
      (n.lowered.filterMap Except.toOption).map Lir.Function.onHeap := by
    rw [hlowered, List.filterMap_map, List.map_filterMap]
    refine List.filterMap_congr fun result _ => ?_
    cases result <;> rfl
  unfold lower
  simp only
  rw [hdefects _ (by rintro (_ | _) <;> rfl), hfunctions]
  split
  · simp [Except.map, Lir.Module.onHeap, replan]
  · rfl

/-- With all frames on the heap, the tables of a program are the same up to the plan, and its module
up to allocation kinds. -/
theorem Built.lower_alwaysHeap (hn : n.Built policy) (hc : n.program.ChildrenDistinct) :
    ∃ h, Nesting.of n.program .alwaysHeap = .ok h ∧ h.lower = n.lower.map Lir.Module.onHeap := by
  refine ⟨n.replan (FramePlan.of n.program n.layouts .alwaysHeap), ?_, ?_⟩
  · unfold Nesting.of
    exact bind_eq_ok.2 ⟨_, hn.captures_eq, bind_eq_ok.2 ⟨_, hn.layouts_eq, rfl⟩⟩
  · refine lower_replan hn.checked hc _ fun owner => ?_
    rw [FramePlan.kind?_alwaysHeap policy, ← hn.plan_eq]

end Nesting

end StaticChain

import StaticChain.Program.Builder
import StaticChain.Proofs.Links

/-!
# What a builder builds

Every step of a `Builder` is carried out as far as it can be. A step that records no misuse is one of the three
ways in which a program grows with its lists in step with its links (`grows_of_apply`), and what was recorded
stays recorded (`misuses_prefix_apply`). So a program that was built without misuse is in order, and the first
misuse is never lost behind later steps (`built_in_order`).
-/

namespace StaticChain

/-! ## Steps of a builder -/

namespace Builder

/-- A step of a builder. -/
inductive Op where
  | function (name : String) (parent : Option DeclId) (returnType : ValueType)
  | method (name : String) (aggregate : DeclId) (returnType : ValueType)
  | aggregate (name : String) (parent : Option DeclId) (kind : AggregateKind)
  | param (owner : DeclId) (name : String) (ty : ValueType)
  | addLocal (owner : DeclId) (name : String) (ty : ValueType)
  | field (owner : DeclId) (name : String) (ty : ValueType)
  | setBody (owner : DeclId) (body : List Stmt)

/-- The builder after a step. -/
def apply (b : Builder) : Op → Builder
  | .function name parent returnType => (b.function name parent returnType).2
  | .method name aggregate returnType => (b.method name aggregate returnType).2
  | .aggregate name parent kind => (b.aggregate name parent kind).2
  | .param owner name ty => (b.param owner name ty).2
  | .addLocal owner name ty => (b.addLocal owner name ty).2
  | .field owner name ty => (b.field owner name ty).2
  | .setBody owner body => b.setBody owner body

/-- The builder after steps, one after the other. -/
def applyAll (b : Builder) (ops : List Op) : Builder := ops.foldl apply b

variable {b : Builder}

/-- A step that records nothing had what it expects. -/
theorem expect_misuses_eq_nil {misuse : Misuse} {condition : Bool} :
    (b.expect misuse condition).misuses = [] ↔ b.misuses = [] ∧ condition = true := by
  cases condition <;> simp [expect]

theorem misuses_prefix_expect (misuse : Misuse) (condition : Bool) :
    b.misuses <+: (b.expect misuse condition).misuses := by
  cases condition <;> simp [expect]

/-! ## What a step does -/

open Program (Grows)

variable {owner : DeclId} {name : String} {ty : ValueType} {kind : VarKind}

@[simp] theorem program_expect (b : Builder) (misuse : Misuse) (condition : Bool) :
    (b.expect misuse condition).program = b.program := by
  cases condition <;> rfl

/-- The declaration that is added. -/
def newDecl (b : Builder) (name : String) (parent : Option DeclId) (kind : DeclKind) : Declaration :=
  { id := ⟨b.program.declarations.size⟩, name, parent, locals := [], children := [], kind }

/-- The variable that is added. -/
def newVar (b : Builder) (owner : DeclId) (name : String) (ty : ValueType) (kind : VarKind) : Variable :=
  { id := ⟨b.program.vars.size⟩, name, ty, owner, kind }

theorem program_addDecl (parent : Option DeclId) (kind : DeclKind) :
    (b.addDecl name parent kind).2.program = b.program.withDecl (b.newDecl name parent kind) := by
  cases parent with
  | none => rfl
  | some parent => simp [addDecl, Program.withDecl, newDecl, modifyDecl]

theorem modify_modify {α : Type} (xs : Array α) (i : Nat) (f g : α → α) :
    (xs.modify i f).modify i g = xs.modify i (g ∘ f) := by
  ext j hj
  · simp
  · simp only [Array.getElem_modify]
    split <;> rfl

theorem program_param : (b.param owner name ty).2.program =
    b.program.withVar (b.newVar owner name ty .param) := by
  simp only [param, addVar, program_expect, modifyDecl, Program.withVar, newVar, modify_modify]
  congr
  funext decl
  cases hk : decl.kind <;> simp [DeclKind.withVar, hk]

theorem program_addLocal : (b.addLocal owner name ty).2.program =
    b.program.withVar (b.newVar owner name ty .local) := by
  simp only [addLocal, addVar, program_expect, modifyDecl, Program.withVar, newVar]
  rfl

theorem program_field : (b.field owner name ty).2.program =
    b.program.withVar (b.newVar owner name ty .field) := by
  simp only [field, addVar, program_expect, modifyDecl, Program.withVar, newVar, modify_modify]
  congr
  funext decl
  cases hk : decl.kind <;> simp [DeclKind.withVar, hk]

theorem program_setBody (body : List Stmt) :
    (b.setBody owner body).program = b.program.withBody owner body := by
  unfold setBody expect
  split <;> rfl

@[simp] theorem misuses_modifyDecl (b : Builder) (id : DeclId) (f : Declaration → Declaration) :
    (b.modifyDecl id f).misuses = b.misuses := rfl

theorem misuses_addDecl_eq_nil {parent : Option DeclId} {kind : DeclKind}
    (h : (b.addDecl name parent kind).2.misuses = []) :
    b.misuses = [] ∧ ∀ q, parent = some q → q.index < b.program.declarations.size := by
  cases parent with
  | none => exact ⟨h, by simp⟩
  | some parent =>
    obtain ⟨hb, hparent⟩ := expect_misuses_eq_nil.1 h
    refine ⟨hb, ?_⟩
    rintro _ ⟨⟩
    simpa [Program.decl?] using hparent

theorem misuses_addVar_eq_nil (h : (b.addVar owner name ty kind).2.misuses = []) :
    b.misuses = [] ∧ ∃ decl, b.program.decl? owner = some decl := by
  obtain ⟨hb, howner⟩ := expect_misuses_eq_nil.1 h
  exact ⟨hb, Option.isSome_iff_exists.1 howner⟩

/-- The declarations are as before but for the locals of the owner. -/
theorem decl?_addVar (id : DeclId) : (b.addVar owner name ty kind).2.program.decl? id =
    (b.program.decl? id).map fun old =>
      if owner = id then { old with locals := old.locals ++ [⟨b.program.vars.size⟩] } else old := by
  have howner : owner.index = id.index ↔ owner = id :=
    ⟨fun h => congrArg DeclId.mk h, fun h => h ▸ rfl⟩
  simp only [addVar, Program.decl?, modifyDecl, program_expect, Array.getElem?_modify, howner]
  split <;> simp

/-- Its kind is as before, too. -/
theorem exists_decl?_of_addVar {new : Declaration}
    (h : (b.addVar owner name ty kind).2.program.decl? owner = some new) :
    ∃ old, b.program.decl? owner = some old ∧ new.kind = old.kind ∧ old.locals ⊆ new.locals := by
  rw [decl?_addVar] at h
  obtain ⟨old, hold, rfl⟩ := Option.map_eq_some_iff.1 h
  exact ⟨old, hold, by simp, by simp⟩

theorem exists_function (h : b.program.isFunction owner = true) :
    ∃ decl f, b.program.decl? owner = some decl ∧ decl.kind = .function f := by
  obtain ⟨f, hf⟩ := Program.isFunction_iff.1 h
  obtain ⟨decl, hd, hk⟩ := Program.function?_eq_some_iff.1 hf
  exact ⟨decl, f, hd, hk⟩

theorem exists_aggregate (h : b.program.isAggregate owner = true) :
    ∃ decl a, b.program.decl? owner = some decl ∧ decl.kind = .aggregate a := by
  obtain ⟨a, ha⟩ := Program.isAggregate_iff.1 h
  obtain ⟨decl, hd, hk⟩ := Program.aggregate?_eq_some_iff.1 ha
  exact ⟨decl, a, hd, hk⟩

/-- A parameter that is recorded as no misuse comes before all locals of a function. -/
theorem accepts_param (hb : b.program.InStep) (h : (b.param owner name ty).2.misuses = []) :
    b.misuses = [] ∧ b.program.Accepts (b.newVar owner name ty .param) := by
  simp only [param, misuses_modifyDecl, expect_misuses_eq_nil, program_expect, Bool.not_eq_true'] at h
  obtain ⟨⟨hadd, hlocals⟩, hfunction⟩ := h
  obtain ⟨new, f, hnew, hk⟩ := exists_function hfunction
  obtain ⟨old, hold, hkind, hsub⟩ := exists_decl?_of_addVar hnew
  refine ⟨(misuses_addVar_eq_nil hadd).1, .param hold (hkind ▸ hk) rfl ?_⟩
  -- a local would be listed, and the step has looked through the list
  refine List.eq_nil_iff_forall_not_mem.2 fun x hx => ?_
  obtain ⟨var, hv, howner, hlocal⟩ := hb.mem_ownedAs_iff.1 hx
  have hmem : x ∈ new.locals := hsub (hb.locals_eq hold ▸ hb.mem_owned_iff.2 ⟨var, hv, howner⟩)
  have hvar : (b.addVar owner name ty .param).2.program.var? x = some var := by
    obtain ⟨hlt, rfl⟩ := Program.var?_eq_some_iff.1 hv
    simp [addVar, Program.var?, modifyDecl, Array.getElem?_push, hlt, Nat.ne_of_lt hlt]
  rw [hasLocals, hnew, Option.any_some, List.any_eq_false] at hlocals
  exact hlocals x hmem (by simp [hvar, hlocal])

theorem accepts_addLocal (h : (b.addLocal owner name ty).2.misuses = []) :
    b.misuses = [] ∧ b.program.Accepts (b.newVar owner name ty .local) := by
  obtain ⟨hb, -⟩ := misuses_addVar_eq_nil h
  obtain ⟨hb, hfunction⟩ := expect_misuses_eq_nil.1 hb
  obtain ⟨decl, f, hd, hk⟩ := exists_function hfunction
  exact ⟨hb, .local hd hk rfl⟩

theorem accepts_field (h : (b.field owner name ty).2.misuses = []) :
    b.misuses = [] ∧ b.program.Accepts (b.newVar owner name ty .field) := by
  simp only [field, misuses_modifyDecl, expect_misuses_eq_nil] at h
  obtain ⟨hadd, haggregate⟩ := h
  obtain ⟨new, a, hnew, hk⟩ := exists_aggregate haggregate
  obtain ⟨old, hold, hkind, -⟩ := exists_decl?_of_addVar hnew
  exact ⟨(misuses_addVar_eq_nil hadd).1, .field hold (hkind ▸ hk) rfl⟩

theorem grows_addDecl {parent : Option DeclId} {kind : DeclKind}
    (h : (b.addDecl name parent kind).2.misuses = []) (hparams : ∀ f, kind = .function f → f.params = [])
    (hfields : ∀ a, kind = .aggregate a → a.fields = []) :
    b.misuses = [] ∧ Grows b.program (b.addDecl name parent kind).2.program := by
  obtain ⟨hb, hparent⟩ := misuses_addDecl_eq_nil h
  rw [program_addDecl]
  exact ⟨hb, .decl rfl rfl rfl hparams hfields hparent⟩

/-- A step that records no misuse lets the program grow. -/
theorem grows_of_apply (hb : b.program.InStep) {op : Op} (h : (b.apply op).misuses = []) :
    b.misuses = [] ∧ Grows b.program (b.apply op).program := by
  cases op with
  | function name parent returnType => exact grows_addDecl h (by rintro _ ⟨⟩; rfl) (by rintro _ ⟨⟩)
  | method name aggregate returnType =>
    have h : ((b.expect (.methodOutsideAggregate name) (b.program.isAggregate aggregate)).addDecl name
        (some aggregate) (.function ⟨[], returnType, []⟩)).2.misuses = [] := h
    obtain ⟨hb, hg⟩ := grows_addDecl h (by rintro _ ⟨⟩; rfl) (by rintro _ ⟨⟩)
    rw [program_expect] at hg
    exact ⟨(expect_misuses_eq_nil.1 hb).1, hg⟩
  | aggregate name parent kind => exact grows_addDecl h (by rintro _ ⟨⟩) (by rintro _ ⟨⟩; rfl)
  | param owner name ty =>
    have h : (b.param owner name ty).2.misuses = [] := h
    obtain ⟨hb, haccepts⟩ := accepts_param hb h
    refine ⟨hb, ?_⟩
    change Grows _ (b.param owner name ty).2.program
    rw [program_param]
    exact .var rfl haccepts
  | addLocal owner name ty =>
    have h : (b.addLocal owner name ty).2.misuses = [] := h
    obtain ⟨hb, haccepts⟩ := accepts_addLocal h
    refine ⟨hb, ?_⟩
    change Grows _ (b.addLocal owner name ty).2.program
    rw [program_addLocal]
    exact .var rfl haccepts
  | field owner name ty =>
    have h : (b.field owner name ty).2.misuses = [] := h
    obtain ⟨hb, haccepts⟩ := accepts_field h
    refine ⟨hb, ?_⟩
    change Grows _ (b.field owner name ty).2.program
    rw [program_field]
    exact .var rfl haccepts
  | setBody owner body =>
    obtain ⟨hb, -⟩ := expect_misuses_eq_nil.1 h
    refine ⟨hb, ?_⟩
    change Grows _ (b.setBody owner body).program
    rw [program_setBody]
    exact .body owner body

theorem misuses_prefix_addDecl (b : Builder) (name : String) (parent : Option DeclId) (kind : DeclKind) :
    b.misuses <+: (b.addDecl name parent kind).2.misuses := by
  cases parent with
  | none => exact List.prefix_rfl
  | some parent => exact misuses_prefix_expect _ _

theorem misuses_prefix_addVar (b : Builder) (owner : DeclId) (name : String) (ty : ValueType)
    (kind : VarKind) : b.misuses <+: (b.addVar owner name ty kind).2.misuses :=
  misuses_prefix_expect _ _

/-- What is recorded stays recorded. -/
theorem misuses_prefix_apply (b : Builder) (op : Op) : b.misuses <+: (b.apply op).misuses := by
  cases op with
  | function name parent returnType => exact b.misuses_prefix_addDecl name parent _
  | method name aggregate returnType =>
    exact (misuses_prefix_expect (.methodOutsideAggregate name) (b.program.isAggregate aggregate)).trans
      (misuses_prefix_addDecl _ name (some aggregate) (.function ⟨[], returnType, []⟩))
  | aggregate name parent kind => exact b.misuses_prefix_addDecl name parent _
  | param owner name ty =>
    refine (b.misuses_prefix_addVar owner name ty .param).trans ?_
    simp only [apply, param, misuses_modifyDecl]
    exact (misuses_prefix_expect _ _).trans (misuses_prefix_expect _ _)
  | addLocal owner name ty =>
    exact (misuses_prefix_expect (.localOfNonFunction name owner) (b.program.isFunction owner)).trans
      (misuses_prefix_addVar _ owner name ty .local)
  | field owner name ty =>
    refine (b.misuses_prefix_addVar owner name ty .field).trans ?_
    simp only [apply, field, misuses_modifyDecl]
    exact misuses_prefix_expect _ _
  | setBody owner body => exact misuses_prefix_expect _ _

theorem misuses_prefix_applyAll (b : Builder) (ops : List Op) : b.misuses <+: (b.applyAll ops).misuses := by
  induction ops generalizing b with
  | nil => exact List.prefix_rfl
  | cons op ops ih => exact (b.misuses_prefix_apply op).trans (ih _)

/-- Steps that record no misuse keep the lists in step with the links. -/
theorem inStep_applyAll (hb : b.program.InStep) {ops : List Op} (h : (b.applyAll ops).misuses = []) :
    (b.applyAll ops).program.InStep := by
  induction ops generalizing b with
  | nil => exact hb
  | cons op ops ih =>
    have hop : (b.apply op).misuses = [] :=
      List.prefix_nil.1 (h ▸ (b.apply op).misuses_prefix_applyAll ops)
    exact ih (hb.grow (grows_of_apply hb hop).2) h

/-! ## A whole run -/

/-- After any steps that record no misuse the program is in order, and it is refused only for a type or for a
body. A misuse that is recorded first is reported, whatever the steps before and after it are. -/
theorem built_in_order (ops : List Op) :
    ((empty.applyAll ops).misuses = [] →
      (empty.applyAll ops).program.InOrder ∧
        ((empty.applyAll ops).finish = .ok (empty.applyAll ops).program ∨
          ∃ flaw, (empty.applyAll ops).finish = .error (.flaw flaw) ∧
            (empty.applyAll ops).program.Leaves flaw)) ∧
    ∀ {before after misuse later}, ops = before ++ after →
      (empty.applyAll before).misuses = misuse :: later →
        (empty.applyAll ops).finish = .error (.misuse misuse) := by
  constructor
  · intro h
    have hstep : (empty.applyAll ops).program.InStep := inStep_applyAll Program.inStep_empty h
    refine ⟨hstep.inOrder, ?_⟩
    unfold finish
    rw [h]
    cases hc : (empty.applyAll ops).program.check with
    | ok => exact .inl rfl
    | error flaw => exact .inr ⟨flaw, rfl, hstep.leaves_of_check hc⟩
  · rintro before after misuse later rfl h
    have hprefix := misuses_prefix_applyAll (empty.applyAll before) after
    rw [h, applyAll, applyAll, ← List.foldl_append] at hprefix
    obtain ⟨rest, hrest⟩ := hprefix
    unfold finish
    rw [applyAll, ← hrest]
    rfl

/-- An aggregate with a field and a method that has a parameter, a local and a body. -/
def counter : List Op := [.aggregate "Counter" none .structType, .field ⟨0⟩ "count" .int,
  .method "next" ⟨0⟩ .int, .param ⟨1⟩ "step" .int, .addLocal ⟨1⟩ "old" .int,
  .setBody ⟨1⟩ [.ret (some (.var ⟨1⟩))]]

theorem built_in_order_counter : (empty.applyAll counter).program.InOrder ∧
    ∀ ops, (empty.applyAll (counter ++ .setBody ⟨0⟩ [] :: ops)).finish =
      .error (.misuse (.bodyOfNonFunction ⟨0⟩)) := by
  refine ⟨((built_in_order counter).1 rfl).1, fun ops => ?_⟩
  exact (built_in_order (counter ++ .setBody ⟨0⟩ [] :: ops)).2
    (List.append_assoc counter [.setBody ⟨0⟩ []] ops).symm rfl

end Builder

end StaticChain

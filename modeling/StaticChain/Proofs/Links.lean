import StaticChain.Proofs.Accepted

/-!
# Lists in step with links

Declarations list their children and variables, and children and variables name their parent and owner.
`Program.InStep` says that every list holds what the links lead one to expect, in the order of positions. Adding
a declaration, a variable or a body keeps it (`InStep.grow`), as long as a parent or owner is there already and
parameters come before locals. What the check asks of links and lists follows, so it can only stop at a type or
at a body (`InStep.leaves_of_check`).
-/

namespace StaticChain

namespace Program

variable (p : Program)

/-! ## What the links say -/

/-- The declarations that name the declaration as their parent, in order. -/
def inside (id : DeclId) : List DeclId :=
  p.declarations.toList.filterMap fun decl => if decl.parent = some id then some decl.id else none

/-- The variables that name the declaration as their owner, in order. -/
def owned (id : DeclId) : List VarId :=
  p.vars.toList.filterMap fun var => if var.owner = id then some var.id else none

/-- Those of them that are of the kind. -/
def ownedAs (kind : VarKind) (id : DeclId) : List VarId :=
  p.vars.toList.filterMap fun var => if var.owner = id ∧ var.kind = kind then some var.id else none

/-- Every list in the program is what the links lead one to expect. -/
structure InStep (p : Program) : Prop where
  decl_id : ∀ {id decl}, p.decl? id = some decl → decl.id = id
  var_id : ∀ {x var}, p.var? x = some var → var.id = x
  parent_lt : ∀ {id decl parent}, p.decl? id = some decl → decl.parent = some parent →
    parent.index < id.index
  owner_lt : ∀ {x var}, p.var? x = some var → var.owner.index < p.declarations.size
  children_eq : ∀ {id decl}, p.decl? id = some decl → decl.children = p.inside id
  locals_eq : ∀ {id decl}, p.decl? id = some decl → decl.locals = p.owned id
  function_eq : ∀ {id decl function}, p.decl? id = some decl → decl.kind = .function function →
    function.params = p.ownedAs .param id ∧ decl.locals = function.params ++ p.ownedAs .local id
  aggregate_eq : ∀ {id decl aggregate}, p.decl? id = some decl → decl.kind = .aggregate aggregate →
    aggregate.fields = decl.locals ∧ decl.locals = p.ownedAs .field id

/-! ## Three ways to go on -/

/-- With one more declaration, which its parent lists. -/
def withDecl (decl : Declaration) : Program where
  declarations := (match decl.parent with
    | none => p.declarations
    | some parent => p.declarations.modify parent.index fun parentDecl =>
      { parentDecl with children := parentDecl.children ++ [decl.id] }).push decl
  vars := p.vars

end Program

/-- The kind of a declaration that has got a variable. -/
def DeclKind.withVar (var : Variable) (kind : DeclKind) : DeclKind :=
  match var.kind, kind with
  | .param, .function f => .function { f with params := f.params ++ [var.id] }
  | .field, .aggregate a => .aggregate { a with fields := a.fields ++ [var.id] }
  | _, kind => kind

namespace Program

variable (p : Program)

/-- With one more variable, which its owner lists. -/
def withVar (var : Variable) : Program where
  declarations := p.declarations.modify var.owner.index fun decl =>
    { decl with locals := decl.locals ++ [var.id], kind := decl.kind.withVar var }
  vars := p.vars.push var

/-- With another body of a function. -/
def withBody (id : DeclId) (body : List Stmt) : Program where
  declarations := p.declarations.modify id.index fun decl => match decl.kind with
    | .function function => { decl with kind := .function { function with body } }
    | .aggregate _ => decl
  vars := p.vars

/-- The owner can have the variable after those that it has. -/
inductive Accepts (p : Program) (var : Variable) : Prop
  | param {decl : Declaration} {f : FunctionDecl} : p.decl? var.owner = some decl →
      decl.kind = .function f → var.kind = .param → p.ownedAs .local var.owner = [] → Accepts p var
  | «local» {decl : Declaration} {f : FunctionDecl} : p.decl? var.owner = some decl →
      decl.kind = .function f → var.kind = .local → Accepts p var
  | field {decl : Declaration} {a : AggregateDecl} : p.decl? var.owner = some decl →
      decl.kind = .aggregate a → var.kind = .field → Accepts p var

/-- What a step can do that records no misuse. -/
inductive Grows : Program → Program → Prop
  | decl {p : Program} {decl : Declaration} (id_eq : decl.id = ⟨p.declarations.size⟩)
      (locals_eq : decl.locals = []) (children_eq : decl.children = [])
      (params_eq : ∀ function, decl.kind = .function function → function.params = [])
      (fields_eq : ∀ aggregate, decl.kind = .aggregate aggregate → aggregate.fields = [])
      (parent_lt : ∀ parent, decl.parent = some parent → parent.index < p.declarations.size) :
      Grows p (p.withDecl decl)
  | var {p : Program} {var : Variable} (id_eq : var.id = ⟨p.vars.size⟩) (accepts : p.Accepts var) :
      Grows p (p.withVar var)
  | body {p : Program} (id : DeclId) (body : List Stmt) : Grows p (p.withBody id body)

end Program

/-! ### Lists that are changed in one place -/

/-- A change in one place of an array that a filter does not see. -/
theorem filterMap_modify {α β : Type} {xs : Array α} {i : Nat} {f : α → α} {g : α → Option β}
    (h : ∀ a, g (f a) = g a) : (xs.modify i f).toList.filterMap g = xs.toList.filterMap g := by
  have hmap : (xs.modify i f).map g = xs.map g := by
    ext j hj
    all_goals simp [Array.getElem_modify, apply_ite g, h]
  have hlist := congrArg (fun ys : Array (Option β) => ys.toList.filterMap id) hmap
  simpa [List.filterMap_map] using hlist

namespace Program

variable {p p' : Program} {decl : Declaration} {var : Variable} {id : DeclId} {x : VarId}

theorem decl?_withDecl (hid : decl.id = ⟨p.declarations.size⟩) : (p.withDecl decl).decl? id =
    if id = decl.id then some decl else (p.decl? id).map fun old =>
      if decl.parent = some id then { old with children := old.children ++ [decl.id] } else old := by
  have hindex : id.index = p.declarations.size ↔ id = decl.id := by
    rw [hid]
    exact ⟨fun h => congrArg DeclId.mk h, fun h => h ▸ rfl⟩
  unfold withDecl decl?
  cases hpar : decl.parent with
  | none => simp [Array.getElem?_push, hindex]
  | some parent =>
    have hparent : parent.index = id.index ↔ parent = id :=
      ⟨fun h => congrArg DeclId.mk h, fun h => h ▸ rfl⟩
    simp only [Array.getElem?_push, Array.size_modify, hindex, Array.getElem?_modify, hparent,
      Option.some.injEq]
    split
    · rfl
    · split <;> simp

theorem decl?_withVar : (p.withVar var).decl? id = (p.decl? id).map fun old =>
    if var.owner = id then { old with locals := old.locals ++ [var.id], kind := old.kind.withVar var }
    else old := by
  have howner : var.owner.index = id.index ↔ var.owner = id :=
    ⟨fun h => congrArg DeclId.mk h, fun h => h ▸ rfl⟩
  simp only [decl?, withVar, Array.getElem?_modify, howner]
  split <;> simp

theorem var?_withVar (hid : var.id = ⟨p.vars.size⟩) :
    (p.withVar var).var? x = if x = var.id then some var else p.var? x := by
  have hindex : x.index = p.vars.size ↔ x = var.id := by
    rw [hid]
    exact ⟨fun h => congrArg VarId.mk h, fun h => h ▸ rfl⟩
  simp [var?, withVar, Array.getElem?_push, hindex]

theorem inside_withDecl : (p.withDecl decl).inside id =
    p.inside id ++ if decl.parent = some id then [decl.id] else [] := by
  unfold inside withDecl
  rw [Array.toList_push, List.filterMap_append]
  congr 1
  · cases decl.parent with
    | none => rfl
    | some parent => exact filterMap_modify fun _ => rfl
  · simp only [List.filterMap_cons, List.filterMap_nil]
    split <;> simp_all

theorem owned_withVar : (p.withVar var).owned id = p.owned id ++ if var.owner = id then [var.id] else [] := by
  unfold owned withVar
  rw [Array.toList_push, List.filterMap_append]
  congr 1
  simp only [List.filterMap_cons, List.filterMap_nil]
  split <;> simp_all

theorem ownedAs_withVar {kind : VarKind} : (p.withVar var).ownedAs kind id =
    p.ownedAs kind id ++ if var.owner = id ∧ var.kind = kind then [var.id] else [] := by
  unfold ownedAs withVar
  rw [Array.toList_push, List.filterMap_append]
  congr 1
  simp only [List.filterMap_cons, List.filterMap_nil]
  split <;> simp_all

theorem inside_withVar : (p.withVar var).inside id = p.inside id :=
  filterMap_modify fun _ => rfl

theorem inside_withBody {owner : DeclId} {body : List Stmt} : (p.withBody owner body).inside id = p.inside id :=
  filterMap_modify fun old => by cases old.kind <;> rfl

/-- Each declaration is the new one, or one that was there and may list the new one. -/
theorem cases_withDecl {new : Declaration} (hid : decl.id = ⟨p.declarations.size⟩)
    (hd : (p.withDecl decl).decl? id = some new) : (id = decl.id ∧ new = decl) ∨
      ∃ old, p.decl? id = some old ∧ new = { old with
        children := old.children ++ if decl.parent = some id then [decl.id] else [] } := by
  rw [decl?_withDecl hid] at hd
  split at hd
  · exact .inl ⟨‹_›, (Option.some.inj hd).symm⟩
  · obtain ⟨old, hold, rfl⟩ := Option.map_eq_some_iff.1 hd
    refine .inr ⟨old, hold, ?_⟩
    split <;> simp

/-- Each declaration was there, and the owner lists the new variable. -/
theorem cases_withVar {new : Declaration} (hd : (p.withVar var).decl? id = some new) :
    ∃ old, p.decl? id = some old ∧
      ((var.owner = id ∧
          new = { old with locals := old.locals ++ [var.id], kind := old.kind.withVar var }) ∨
        (var.owner ≠ id ∧ new = old)) := by
  rw [decl?_withVar] at hd
  obtain ⟨old, hold, rfl⟩ := Option.map_eq_some_iff.1 hd
  refine ⟨old, hold, ?_⟩
  split
  · exact .inl ⟨‹_›, rfl⟩
  · exact .inr ⟨‹_›, rfl⟩

/-- Each declaration was there, and differs in the body at most. -/
theorem cases_withBody {owner : DeclId} {body : List Stmt} {new : Declaration}
    (hd : (p.withBody owner body).decl? id = some new) : ∃ old, p.decl? id = some old ∧
      new.id = old.id ∧ new.parent = old.parent ∧ new.locals = old.locals ∧ new.children = old.children ∧
        (new.kind = old.kind ∨ ∃ f, old.kind = .function f ∧ new.kind = .function { f with body }) := by
  simp only [decl?, Program.withBody, Array.getElem?_modify] at hd
  split at hd
  · obtain ⟨old, hold, rfl⟩ := Option.map_eq_some_iff.1 hd
    refine ⟨old, hold, ?_⟩
    cases hk : old.kind <;> simp [hk]
  · exact ⟨new, hd, rfl, rfl, rfl, rfl, .inl rfl⟩

theorem Accepts.exists_owner (h : p.Accepts var) : ∃ decl, p.decl? var.owner = some decl := by
  cases h with
  | param hd | «local» hd | field hd => exact ⟨_, hd⟩

theorem exists_decl? (h : decl ∈ p.declarations.toList) : ∃ id, p.decl? id = some decl := by
  obtain ⟨i, hi, rfl⟩ := List.getElem_of_mem h
  exact ⟨⟨i⟩, by simp [decl?]⟩

theorem exists_var? (h : var ∈ p.vars.toList) : ∃ x, p.var? x = some var := by
  obtain ⟨i, hi, rfl⟩ := List.getElem_of_mem h
  exact ⟨⟨i⟩, by simp [var?]⟩

theorem inStep_empty : Program.empty.InStep := by
  constructor <;> simp [Program.empty, decl?, var?]

namespace InStep

variable (h : p.InStep)
include h

theorem mem_inside_iff {child : DeclId} :
    child ∈ p.inside id ↔ ∃ decl, p.decl? child = some decl ∧ decl.parent = some id := by
  simp only [inside, List.mem_filterMap, Option.ite_none_right_eq_some, Option.some.injEq]
  constructor
  · rintro ⟨decl, hmem, hpar, rfl⟩
    obtain ⟨id', hd⟩ := exists_decl? hmem
    exact ⟨decl, h.decl_id hd ▸ hd, hpar⟩
  · rintro ⟨decl, hd, hpar⟩
    exact ⟨decl, mem_of_decl? hd, hpar, h.decl_id hd⟩

theorem mem_owned_iff : x ∈ p.owned id ↔ ∃ var, p.var? x = some var ∧ var.owner = id := by
  simp only [owned, List.mem_filterMap, Option.ite_none_right_eq_some, Option.some.injEq]
  constructor
  · rintro ⟨var, hmem, howner, rfl⟩
    obtain ⟨x', hv⟩ := exists_var? hmem
    exact ⟨var, h.var_id hv ▸ hv, howner⟩
  · rintro ⟨var, hv, howner⟩
    obtain ⟨hlt, rfl⟩ := var?_eq_some_iff.1 hv
    exact ⟨_, by simp, howner, h.var_id hv⟩

theorem mem_ownedAs_iff {kind : VarKind} :
    x ∈ p.ownedAs kind id ↔ ∃ var, p.var? x = some var ∧ var.owner = id ∧ var.kind = kind := by
  simp only [ownedAs, List.mem_filterMap, Option.ite_none_right_eq_some, Option.some.injEq]
  constructor
  · rintro ⟨var, hmem, howner, rfl⟩
    obtain ⟨x', hv⟩ := exists_var? hmem
    exact ⟨var, h.var_id hv ▸ hv, howner⟩
  · rintro ⟨var, hv, howner⟩
    obtain ⟨hlt, rfl⟩ := var?_eq_some_iff.1 hv
    exact ⟨_, by simp, howner, h.var_id hv⟩

/-- Nothing is inside a declaration that is not there. -/
theorem inside_eq_nil (hid : p.declarations.size ≤ id.index) : p.inside id = [] := by
  refine List.eq_nil_iff_forall_not_mem.2 fun child hchild => ?_
  obtain ⟨decl, hd, hpar⟩ := h.mem_inside_iff.1 hchild
  have := h.parent_lt hd hpar
  have := (decl?_eq_some_iff.1 hd).1
  omega

theorem owned_eq_nil (hid : p.declarations.size ≤ id.index) : p.owned id = [] := by
  refine List.eq_nil_iff_forall_not_mem.2 fun x hx => ?_
  obtain ⟨var, hv, rfl⟩ := h.mem_owned_iff.1 hx
  have := h.owner_lt hv
  omega

theorem ownedAs_eq_nil {kind : VarKind} (hid : p.declarations.size ≤ id.index) : p.ownedAs kind id = [] := by
  refine List.eq_nil_iff_forall_not_mem.2 fun x hx => ?_
  obtain ⟨var, hv, rfl, -⟩ := h.mem_ownedAs_iff.1 hx
  have := h.owner_lt hv
  omega

/-- A declaration with its number that lists nothing. -/
theorem withDecl (id_eq : decl.id = ⟨p.declarations.size⟩) (locals_eq : decl.locals = [])
    (children_eq : decl.children = [])
    (params_eq : ∀ function, decl.kind = .function function → function.params = [])
    (fields_eq : ∀ aggregate, decl.kind = .aggregate aggregate → aggregate.fields = [])
    (parent_lt : ∀ parent, decl.parent = some parent → parent.index < p.declarations.size) :
    (p.withDecl decl).InStep where
  decl_id hd := by
    rcases cases_withDecl id_eq hd with ⟨rfl, rfl⟩ | ⟨old, hold, rfl⟩
    · rfl
    · have hid := h.decl_id hold
      exact hid
  var_id := h.var_id
  parent_lt hd hpar := by
    rcases cases_withDecl id_eq hd with ⟨rfl, rfl⟩ | ⟨old, hold, rfl⟩
    · have := parent_lt _ hpar
      simpa [id_eq] using this
    · exact h.parent_lt hold hpar
  owner_lt hv := by
    have hsize : (p.withDecl decl).declarations.size = p.declarations.size + 1 := by
      unfold Program.withDecl
      cases decl.parent <;> simp
    have := h.owner_lt hv
    omega
  children_eq hd := by
    have hself : decl.parent ≠ some decl.id := fun hpar => by
      have := parent_lt _ hpar
      simp [id_eq] at this
    rw [inside_withDecl]
    rcases cases_withDecl id_eq hd with ⟨rfl, rfl⟩ | ⟨old, hold, rfl⟩
    · rw [children_eq, h.inside_eq_nil (by simp [id_eq]), if_neg hself]
      rfl
    · rw [← h.children_eq hold]
  locals_eq {id new} hd := by
    change new.locals = p.owned id
    rcases cases_withDecl id_eq hd with ⟨rfl, rfl⟩ | ⟨old, hold, rfl⟩
    · rw [locals_eq, h.owned_eq_nil (by simp [id_eq])]
    · have hlocals := h.locals_eq hold
      exact hlocals
  function_eq {id new function} hd hk := by
    change function.params = p.ownedAs .param id ∧ new.locals = function.params ++ p.ownedAs .local id
    have hnew : p.declarations.size ≤ decl.id.index := by simp [id_eq]
    rcases cases_withDecl id_eq hd with ⟨rfl, rfl⟩ | ⟨old, hold, rfl⟩
    · simp [locals_eq, params_eq _ hk, h.ownedAs_eq_nil hnew]
    · have hfunction := h.function_eq hold hk
      exact hfunction
  aggregate_eq {id new aggregate} hd hk := by
    change aggregate.fields = new.locals ∧ new.locals = p.ownedAs .field id
    have hnew : p.declarations.size ≤ decl.id.index := by simp [id_eq]
    rcases cases_withDecl id_eq hd with ⟨rfl, rfl⟩ | ⟨old, hold, rfl⟩
    · simp [locals_eq, fields_eq _ hk, h.ownedAs_eq_nil hnew]
    · have haggregate := h.aggregate_eq hold hk
      exact haggregate

/-- A variable with its number that its owner can have after those that it has. -/
theorem withVar (id_eq : var.id = ⟨p.vars.size⟩) (accepts : p.Accepts var) : (p.withVar var).InStep where
  decl_id hd := by
    obtain ⟨old, hold, ⟨-, rfl⟩ | ⟨-, rfl⟩⟩ := cases_withVar hd
    · have hid := h.decl_id hold
      exact hid
    · exact h.decl_id hold
  var_id {x new} hv := by
    rw [var?_withVar id_eq] at hv
    split at hv
    · cases hv
      exact ‹x = _›.symm
    · exact h.var_id hv
  parent_lt hd hpar := by
    obtain ⟨old, hold, ⟨-, rfl⟩ | ⟨-, rfl⟩⟩ := cases_withVar hd
    · exact h.parent_lt hold hpar
    · exact h.parent_lt hold hpar
  owner_lt hv := by
    have hsize : (p.withVar var).declarations.size = p.declarations.size := by simp [Program.withVar]
    rw [hsize]
    rw [var?_withVar id_eq] at hv
    split at hv
    · cases hv
      obtain ⟨owner, howner⟩ := accepts.exists_owner
      exact (decl?_eq_some_iff.1 howner).1
    · exact h.owner_lt hv
  children_eq hd := by
    rw [inside_withVar]
    obtain ⟨old, hold, ⟨-, rfl⟩ | ⟨-, rfl⟩⟩ := cases_withVar hd
    · have hchildren := h.children_eq hold
      exact hchildren
    · exact h.children_eq hold
  locals_eq hd := by
    rw [owned_withVar]
    obtain ⟨old, hold, ⟨howner, rfl⟩ | ⟨howner, rfl⟩⟩ := cases_withVar hd
    · simp [h.locals_eq hold, howner]
    · simp [h.locals_eq hold, howner]
  function_eq hd hk := by
    rw [ownedAs_withVar, ownedAs_withVar]
    obtain ⟨old, hold, ⟨rfl, rfl⟩ | ⟨howner, rfl⟩⟩ := cases_withVar hd
    · cases accepts with
      | param hd hk' hkind hnone | «local» hd hk' hkind =>
        cases hold.symm.trans hd
        simp only [DeclKind.withVar, hkind, hk', DeclKind.function.injEq] at hk
        subst hk
        simp_all [h.function_eq hd hk']
      | field hd hk' hkind =>
        cases hold.symm.trans hd
        simp [DeclKind.withVar, hkind, hk'] at hk
    · simpa [howner] using h.function_eq hold hk
  aggregate_eq hd hk := by
    rw [ownedAs_withVar]
    obtain ⟨old, hold, ⟨rfl, rfl⟩ | ⟨howner, rfl⟩⟩ := cases_withVar hd
    · cases accepts with
      | param hd hk' hkind | «local» hd hk' hkind =>
        cases hold.symm.trans hd
        simp [DeclKind.withVar, hkind, hk'] at hk
      | field hd hk' hkind =>
        cases hold.symm.trans hd
        simp only [DeclKind.withVar, hkind, hk', DeclKind.aggregate.injEq] at hk
        subst hk
        obtain ⟨hfields, hlocals⟩ := h.aggregate_eq hd hk'
        simp [hfields, hlocals, hkind]
    · simpa [howner] using h.aggregate_eq hold hk

/-- A body is no part of links and lists. -/
theorem withBody (owner : DeclId) (body : List Stmt) : (p.withBody owner body).InStep where
  decl_id hd := by
    obtain ⟨old, hold, hid, -⟩ := cases_withBody hd
    exact hid.trans (h.decl_id hold)
  var_id := h.var_id
  parent_lt hd hpar := by
    obtain ⟨old, hold, -, hparent, -⟩ := cases_withBody hd
    exact h.parent_lt hold (hparent ▸ hpar)
  owner_lt hv := by simpa [Program.withBody] using h.owner_lt hv
  children_eq hd := by
    obtain ⟨old, hold, -, -, -, hchildren, -⟩ := cases_withBody hd
    rw [inside_withBody, hchildren, h.children_eq hold]
  locals_eq hd := by
    obtain ⟨old, hold, -, -, hlocals, -⟩ := cases_withBody hd
    exact hlocals.trans (h.locals_eq hold)
  function_eq hd hk := by
    obtain ⟨old, hold, -, -, hlocals, -, hkind | ⟨f, hf, hkind⟩⟩ := cases_withBody hd
    · rw [hlocals]
      exact h.function_eq hold (hkind ▸ hk)
    · rw [hkind] at hk
      cases hk
      rw [hlocals]
      have hfunction := h.function_eq hold hf
      exact hfunction
  aggregate_eq hd hk := by
    obtain ⟨old, hold, -, -, hlocals, -, hkind | ⟨f, hf, hkind⟩⟩ := cases_withBody hd
    · rw [hlocals]
      exact h.aggregate_eq hold (hkind ▸ hk)
    · rw [hkind] at hk
      cases hk

/-- The lists stay in step with the links, whatever is added. -/
theorem grow (hg : Grows p p') : p'.InStep := by
  cases hg with
  | decl id_eq locals_eq children_eq params_eq fields_eq parent_lt =>
    exact h.withDecl id_eq locals_eq children_eq params_eq fields_eq parent_lt
  | var id_eq accepts => exact h.withVar id_eq accepts
  | body id body => exact h.withBody id body

end InStep

/-! ## What the check makes of it -/

namespace InStep

variable (h : p.InStep)
include h

/-- Parents come before their children, so every way up ends. -/
theorem chainEnds_of_lt {n : Nat} (hid : id.index < n) : p.chainEnds n (some id) = true := by
  induction n generalizing id with
  | zero => omega
  | succ n ih =>
    rw [chainEnds]
    cases hpar : p.parent? id with
    | none => cases n <;> rfl
    | some parent =>
      obtain ⟨decl, hd, hparent⟩ := parent?_eq_some_iff.1 hpar
      have := h.parent_lt hd hparent
      exact ih (by omega)

theorem checkNesting_eq_ok (hd : p.decl? id = some decl) : p.checkNesting decl = .ok () := by
  have hid := h.decl_id hd
  refine checkNesting_iff.2 ⟨?_, fun child hchild => ?_, ?_⟩
  · unfold checkParent
    cases hpar : decl.parent with
    | none => rfl
    | some parent =>
      have hlt := h.parent_lt hd hpar
      have hsize := (decl?_eq_some_iff.1 hd).1
      have hp : p.decl? parent = some p.declarations[parent.index] := decl?_eq_some_iff.2 ⟨by omega, rfl⟩
      have hmem : decl.id ∈ p.inside parent := h.mem_inside_iff.2 ⟨decl, hid ▸ hd, hpar⟩
      simpa [hp, Flaw.excludedBy_eq_ok, h.children_eq hp] using hmem
  · rw [h.children_eq hd] at hchild
    obtain ⟨childDecl, hc, hpar⟩ := h.mem_inside_iff.1 hchild
    simp [checkChild, hc, Flaw.excludedBy_eq_ok, hpar, hid]
  · cases hpar : decl.parent with
    | none => cases p.declarations.size <;> rfl
    | some parent =>
      have := h.parent_lt hd hpar
      have := (decl?_eq_some_iff.1 hd).1
      exact h.chainEnds_of_lt (by omega)

theorem checkLocals_eq_ok (hd : p.decl? id = some decl) : p.checkLocals decl = .ok () := by
  have hid := h.decl_id hd
  have hown : ∀ x ∈ decl.locals, p.checkLocal decl x = .ok () := by
    intro x hx
    rw [h.locals_eq hd] at hx
    obtain ⟨var, hv, howner⟩ := h.mem_owned_iff.1 hx
    simp [checkLocal, hv, Flaw.excludedBy_eq_ok, howner, hid]
  cases hk : decl.kind with
  | function f =>
    obtain ⟨hparams, hlocals⟩ := h.function_eq hd hk
    refine (checkLocals_function_iff hk).2 ⟨hown, by simp [hlocals], fun x hx => ?_⟩
    rw [hlocals, List.mem_append] at hx
    rcases hx with hx | hx
    · obtain ⟨var, hv, -, hkind⟩ := h.mem_ownedAs_iff.1 (hparams ▸ hx)
      simp [checkFunctionLocal, hv, Flaw.excludedBy_eq_ok, hx, hkind]
    · obtain ⟨var, hv, -, hkind⟩ := h.mem_ownedAs_iff.1 hx
      have hout : x ∉ f.params := by
        rw [hparams, h.mem_ownedAs_iff]
        simp [hv, hkind]
      simp [checkFunctionLocal, hv, Flaw.excludedBy_eq_ok, hout, hkind]
  | aggregate a =>
    obtain ⟨hfields, hlocals⟩ := h.aggregate_eq hd hk
    refine (checkLocals_aggregate_iff hk).2 ⟨hown, hfields, fun x hx => ?_⟩
    rw [hlocals] at hx
    obtain ⟨var, hv, -, hkind⟩ := h.mem_ownedAs_iff.1 hx
    simp [checkAggregateLocal, hv, Flaw.excludedBy_eq_ok, hkind]

/-! ### Lists in order -/

theorem pairwise_declarations :
    p.declarations.toList.Pairwise fun decl decl' => decl.id.index < decl'.id.index := by
  rw [List.pairwise_iff_getElem]
  intro i j hi hj hij
  have key : ∀ k (hk : k < p.declarations.size), p.declarations[k].id = ⟨k⟩ := fun k hk =>
    h.decl_id (decl?_eq_some_iff.2 ⟨hk, rfl⟩)
  simp only [Array.length_toList] at hi hj
  simpa [key i hi, key j hj] using hij

theorem pairwise_vars : p.vars.toList.Pairwise fun var var' => var.id.index < var'.id.index := by
  rw [List.pairwise_iff_getElem]
  intro i j hi hj hij
  have key : ∀ k (hk : k < p.vars.size), p.vars[k].id = ⟨k⟩ := fun k hk =>
    h.var_id (var?_eq_some_iff.2 ⟨hk, rfl⟩)
  simp only [Array.length_toList] at hi hj
  simpa [key i hi, key j hj] using hij

theorem pairwise_inside (id : DeclId) : (p.inside id).Pairwise fun a b => a.index < b.index := by
  refine h.pairwise_declarations.filterMap _ fun decl decl' hlt a ha b hb => ?_
  rw [Option.ite_none_right_eq_some] at ha hb
  cases ha.2
  cases hb.2
  exact hlt

theorem pairwise_owned (id : DeclId) : (p.owned id).Pairwise fun a b => a.index < b.index := by
  refine h.pairwise_vars.filterMap _ fun var var' hlt a ha b hb => ?_
  rw [Option.ite_none_right_eq_some] at ha hb
  cases ha.2
  cases hb.2
  exact hlt

/-! ### Ownership -/

theorem mem_allLocals_iff : x ∈ p.allLocals ↔ ∃ var, p.var? x = some var := by
  simp only [allLocals, List.mem_flatMap]
  constructor
  · rintro ⟨decl, hmem, hx⟩
    obtain ⟨id, hd⟩ := exists_decl? hmem
    obtain ⟨var, hv, -⟩ := h.mem_owned_iff.1 (h.locals_eq hd ▸ hx)
    exact ⟨var, hv⟩
  · rintro ⟨var, hv⟩
    have howner := h.owner_lt hv
    have hd : p.decl? var.owner = some p.declarations[var.owner.index] := decl?_eq_some_iff.2 ⟨howner, rfl⟩
    exact ⟨_, mem_of_decl? hd, h.locals_eq hd ▸ h.mem_owned_iff.2 ⟨var, hv, rfl⟩⟩

/-- No variable is listed twice, since it has one owner. -/
theorem allLocals_nodup : p.allLocals.Nodup := by
  have hne : ∀ {a b : VarId}, a.index < b.index → a ≠ b := by
    rintro a _ hlt rfl
    omega
  refine List.nodup_flatMap.2 ⟨fun decl hmem => ?_, h.pairwise_declarations.imp_of_mem ?_⟩
  · obtain ⟨id, hd⟩ := exists_decl? hmem
    rw [h.locals_eq hd]
    exact (h.pairwise_owned id).imp hne
  · intro decl decl' hmem hmem' hlt x hx hx'
    obtain ⟨id, hd⟩ := exists_decl? hmem
    obtain ⟨id', hd'⟩ := exists_decl? hmem'
    obtain ⟨var, hv, howner⟩ := h.mem_owned_iff.1 (h.locals_eq hd ▸ hx)
    obtain ⟨var', hv', howner'⟩ := h.mem_owned_iff.1 (h.locals_eq hd' ▸ hx')
    cases hv.symm.trans hv'
    rw [h.decl_id hd, h.decl_id hd', ← howner, ← howner'] at hlt
    omega

omit h in
theorem firstRepeated_eq_none {seen l : List VarId} (hn : (seen ++ l).Nodup) : firstRepeated seen l = none := by
  induction l generalizing seen with
  | nil => rfl
  | cons x l ih =>
    have hx : x ∉ seen := fun hmem => (List.nodup_append.1 hn).2.2 x hmem x List.mem_cons_self rfl
    simp only [firstRepeated, List.contains_eq_mem, hx, decide_false, Bool.false_eq_true, if_false]
    exact ih (List.perm_middle.nodup_iff.1 hn)

theorem checkOwnership_eq_ok : p.checkOwnership = .ok () := by
  -- the listed variables are those below the count, each once
  have hperm : p.allLocals.Perm ((List.range p.vars.size).map VarId.mk) := by
    refine (List.perm_ext_iff_of_nodup h.allLocals_nodup ?_).2 fun x => ?_
    · exact List.nodup_range.map fun a b hab => congrArg VarId.index hab
    · rw [h.mem_allLocals_iff, List.mem_map]
      constructor
      · rintro ⟨var, hv⟩
        exact ⟨x.index, List.mem_range.2 (var?_eq_some_iff.1 hv).1, rfl⟩
      · rintro ⟨i, hi, rfl⟩
        exact ⟨_, var?_eq_some_iff.2 ⟨List.mem_range.1 hi, rfl⟩⟩
  unfold checkOwnership
  rw [firstRepeated_eq_none (by simpa using h.allLocals_nodup)]
  simp [Flaw.excludedBy_eq_ok, hperm.length_eq]

end InStep

/-! ## Flaws that are left -/

/-- What can be wrong with a program that was built without misuse. -/
inductive Leaves (p : Program) : Flaw → Prop
  | unit {x : VarId} {var : Variable} : p.var? x = some var → var.ty = .unit →
      Leaves p (.unitVariable var.name)
  | varType {x : VarId} {var : Variable} {a : DeclId} : p.var? x = some var → var.ty.Mentions a →
      p.isAggregate a = false → Leaves p (.notAnAggregate var.name a)
  | returnType {id : DeclId} {decl : Declaration} {f : FunctionDecl} {a : DeclId} :
      p.decl? id = some decl → decl.kind = .function f → f.returnType.Mentions a →
      p.isAggregate a = false → Leaves p (.notAnAggregate decl.name a)
  | body {id : DeclId} {decl : Declaration} {f : FunctionDecl} {flaw : Flaw} : p.decl? id = some decl →
      decl.kind = .function f → p.checkBlock id f.body = .error flaw → Leaves p flaw

theorem excludedBy_eq_error {flaw cause : Flaw} {condition : Bool} :
    flaw.excludedBy condition = .error cause ↔ condition = false ∧ flaw = cause := by
  cases condition <;> simp [Flaw.excludedBy]

mutual

/-- A type is refused for an instance of something that is no aggregate. -/
theorem mentions_of_checkType {user : String} {flaw : Flaw} : ∀ {ty : ValueType},
    p.checkType user ty = .error flaw →
      ∃ a, ty.Mentions a ∧ p.isAggregate a = false ∧ flaw = .notAnAggregate user a
  | .instanceOf a, h => by
    obtain ⟨ha, rfl⟩ := excludedBy_eq_error.1 h
    exact ⟨a, .instanceOf, ha, rfl⟩
  | .function params ret, h => by
    rw [checkType] at h
    rcases bind_eq_error.1 h with h | ⟨-, -, h⟩
    · obtain ⟨param, hmem, a, hm, ha⟩ := mentions_of_checkTypes h
      exact ⟨a, .param hmem hm, ha⟩
    · obtain ⟨a, hm, ha⟩ := mentions_of_checkType h
      exact ⟨a, .ret hm, ha⟩

theorem mentions_of_checkTypes {user : String} {flaw : Flaw} : ∀ {types : List ValueType},
    p.checkTypes user types = .error flaw →
      ∃ ty ∈ types, ∃ a, ty.Mentions a ∧ p.isAggregate a = false ∧ flaw = .notAnAggregate user a
  | ty :: types, h => by
    rw [checkTypes] at h
    rcases bind_eq_error.1 h with h | ⟨-, -, h⟩
    · exact ⟨ty, List.mem_cons_self, mentions_of_checkType h⟩
    · obtain ⟨ty', hmem, hm⟩ := mentions_of_checkTypes h
      exact ⟨ty', List.mem_cons_of_mem _ hmem, hm⟩

end

theorem exists_of_forM_eq_error {α : Type} {l : List α} {f : α → Except Flaw Unit} {flaw : Flaw}
    (h : l.forM f = .error flaw) : ∃ a ∈ l, f a = .error flaw := by
  induction l with
  | nil => cases h
  | cons a l ih =>
    rcases bind_eq_error.1 h with h | ⟨-, -, h⟩
    · exact ⟨a, List.mem_cons_self, h⟩
    · obtain ⟨a', hmem, h⟩ := ih h
      exact ⟨a', List.mem_cons_of_mem _ hmem, h⟩

namespace InStep

variable (h : p.InStep)
include h

theorem leaves_of_checkVariable {index : Nat} {var : Variable} (hv : p.var? ⟨index⟩ = some var) {flaw : Flaw}
    (hf : p.checkVariable index var = .error flaw) : p.Leaves flaw := by
  unfold checkVariable at hf
  rcases bind_eq_error.1 hf with hf | ⟨-, -, hf⟩
  · simp [excludedBy_eq_error, h.var_id hv] at hf
  rcases bind_eq_error.1 hf with hf | ⟨-, -, hf⟩
  · simp [excludedBy_eq_error, decl?, h.owner_lt hv] at hf
  rcases bind_eq_error.1 hf with hf | ⟨-, -, hf⟩
  · obtain ⟨hunit, rfl⟩ := excludedBy_eq_error.1 hf
    refine .unit hv ?_
    cases hty : var.ty <;> simp [hty, ValueType.isUnit] at hunit ⊢
  · obtain ⟨a, hm, ha, rfl⟩ := mentions_of_checkType hf
    exact .varType hv hm ha

theorem leaves_of_checkBody (hd : p.decl? id = some decl) {flaw : Flaw}
    (hf : p.checkBody decl = .error flaw) : p.Leaves flaw := by
  unfold checkBody at hf
  cases hk : decl.kind with
  | function f =>
    simp only [hk] at hf
    rcases bind_eq_error.1 hf with hf | ⟨-, -, hf⟩
    · obtain ⟨a, hm, ha, rfl⟩ := mentions_of_checkType hf
      exact .returnType hd hk hm ha
    · exact .body hd hk (h.decl_id hd ▸ hf)
  | aggregate a =>
    simp only [hk] at hf
    cases hf

/-- The check finds nothing wrong with the links and lists. -/
theorem leaves_of_check {flaw : Flaw} (hf : p.check = .error flaw) : p.Leaves flaw := by
  unfold check at hf
  -- the tests in their order: numbers, variables, links and lists, ownership, bodies
  rcases bind_eq_error.1 hf with hf | ⟨-, -, hf⟩
  · obtain ⟨⟨decl, i⟩, hmem, hf⟩ := exists_of_forM_eq_error hf
    have hd : p.decl? ⟨i⟩ = some decl := by
      simpa [decl?] using List.mem_zipIdx_iff_getElem?.1 hmem
    simp [excludedBy_eq_error, h.decl_id hd] at hf
  rcases bind_eq_error.1 hf with hf | ⟨-, -, hf⟩
  · obtain ⟨⟨var, i⟩, hmem, hf⟩ := exists_of_forM_eq_error hf
    have hv : p.var? ⟨i⟩ = some var := by
      simpa [var?] using List.mem_zipIdx_iff_getElem?.1 hmem
    exact h.leaves_of_checkVariable hv hf
  rcases bind_eq_error.1 hf with hf | ⟨-, -, hf⟩
  · obtain ⟨decl, hmem, hf⟩ := exists_of_forM_eq_error hf
    obtain ⟨id, hd⟩ := exists_decl? hmem
    rcases bind_eq_error.1 hf with hf | ⟨-, -, hf⟩
    · simp [h.checkNesting_eq_ok hd] at hf
    · simp [h.checkLocals_eq_ok hd] at hf
  rcases bind_eq_error.1 hf with hf | ⟨-, -, hf⟩
  · simp [h.checkOwnership_eq_ok] at hf
  · obtain ⟨decl, hmem, hf⟩ := exists_of_forM_eq_error hf
    obtain ⟨id, hd⟩ := exists_decl? hmem
    exact h.leaves_of_checkBody hd hf

end InStep

/-! ## A program in order -/

/-- What holds of the links and lists of a program that was built without misuse. -/
structure InOrder (p : Program) : Prop where
  decl_id : ∀ {id decl}, p.decl? id = some decl → decl.id = id
  var_id : ∀ {x var}, p.var? x = some var → var.id = x
  parent_lt : ∀ {id decl parent}, p.decl? id = some decl → decl.parent = some parent →
    parent.index < id.index
  children_increasing : ∀ {id decl}, p.decl? id = some decl →
    decl.children.Pairwise fun child child' => child.index < child'.index
  mem_children_iff : ∀ {id decl child}, p.decl? id = some decl →
    (child ∈ decl.children ↔ p.parent? child = some id)
  nesting : ∀ {id decl}, p.decl? id = some decl → p.checkNesting decl = .ok ()
  locals : ∀ {id decl}, p.decl? id = some decl → p.checkLocals decl = .ok ()

theorem InStep.inOrder (h : p.InStep) : p.InOrder where
  decl_id := h.decl_id
  var_id := h.var_id
  parent_lt := h.parent_lt
  children_increasing hd := h.children_eq hd ▸ h.pairwise_inside _
  mem_children_iff hd := by rw [h.children_eq hd, h.mem_inside_iff, parent?_eq_some_iff]
  nesting := h.checkNesting_eq_ok
  locals := h.checkLocals_eq_ok

end Program

end StaticChain

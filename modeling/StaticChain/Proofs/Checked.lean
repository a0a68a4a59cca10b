import Mathlib.Data.List.Nodup
import Mathlib.Data.List.Perm.Subperm
import StaticChain.Program.Check
import StaticChain.Proofs.Success

/-!
# What a checked program guarantees

`Program.check` runs its tests in a fixed order and stops at the first flaw. `Program.Checked`
states what the tests establish together, in terms of lookups: names agree with positions, parent
and child links agree and have no cycle, variables belong to the declaration that lists them, and
the names in bodies exist. `Program.checked_of_check` reads it off a check that passed; nothing
after this module opens the check itself.
-/

namespace StaticChain

theorem Flaw.excludedBy_eq_ok {flaw : Flaw} {condition : Bool} :
    flaw.excludedBy condition = .ok () ↔ condition = true := by
  unfold Flaw.excludedBy
  split <;> simp_all

namespace Program

variable {p : Program}

/-- What holds of a program without flaw. -/
structure Checked (p : Program) : Prop where
  decl_id : ∀ {id decl}, p.decl? id = some decl → decl.id = id
  var_id : ∀ {id var}, p.var? id = some var → var.id = id
  var_ty : ∀ {id var}, p.var? id = some var → var.ty.isUnit = false
  child_of_parent : ∀ {id decl parent}, p.decl? id = some decl → decl.parent = some parent →
    ∃ parentDecl, p.decl? parent = some parentDecl ∧ id ∈ parentDecl.children
  parent_of_child : ∀ {id decl child}, p.decl? id = some decl → child ∈ decl.children →
    ∃ childDecl, p.decl? child = some childDecl ∧ childDecl.parent = some id
  chain_ends : ∀ {id decl}, p.decl? id = some decl →
    p.chainEnds p.declarations.size decl.parent = true
  local_owner : ∀ {id decl x}, p.decl? id = some decl → x ∈ decl.locals →
    ∃ var, p.var? x = some var ∧ var.owner = id
  params_prefix : ∀ {id decl function}, p.decl? id = some decl → decl.kind = .function function →
    function.params <+: decl.locals
  function_local_kind : ∀ {id decl function x var}, p.decl? id = some decl →
    decl.kind = .function function → x ∈ decl.locals → p.var? x = some var →
      var.kind = if function.params.contains x then .param else .local
  fields_eq : ∀ {id decl aggregate}, p.decl? id = some decl → decl.kind = .aggregate aggregate →
    aggregate.fields = decl.locals
  field_kind : ∀ {id decl aggregate x var}, p.decl? id = some decl →
    decl.kind = .aggregate aggregate → x ∈ decl.locals → p.var? x = some var → var.kind = .field
  locals_nodup : p.allLocals.Nodup
  declared : ∀ {x var}, p.var? x = some var → x ∈ p.allLocals
  body : ∀ {id decl function}, p.decl? id = some decl → decl.kind = .function function →
    p.checkBlock id function.body = .ok ()

theorem decl?_eq_some_iff {id : DeclId} {decl : Declaration} :
    p.decl? id = some decl ↔ ∃ h : id.index < p.declarations.size,
      p.declarations[id.index] = decl := by
  simp [decl?, Array.getElem?_eq_some_iff]

theorem var?_eq_some_iff {id : VarId} {var : Variable} :
    p.var? id = some var ↔ ∃ h : id.index < p.vars.size, p.vars[id.index] = var := by
  simp [var?, Array.getElem?_eq_some_iff]

theorem mem_of_decl? {id : DeclId} {decl : Declaration} (h : p.decl? id = some decl) :
    decl ∈ p.declarations.toList := by
  obtain ⟨hi, rfl⟩ := decl?_eq_some_iff.1 h
  simp

theorem decl?_mem_zipIdx {id : DeclId} {decl : Declaration} (h : p.decl? id = some decl) :
    (decl, id.index) ∈ p.declarations.toList.zipIdx := by
  obtain ⟨hi, rfl⟩ := decl?_eq_some_iff.1 h
  rw [List.mem_zipIdx_iff_getElem?]
  simp [hi]

theorem var?_mem_zipIdx {id : VarId} {var : Variable} (h : p.var? id = some var) :
    (var, id.index) ∈ p.vars.toList.zipIdx := by
  obtain ⟨hi, rfl⟩ := var?_eq_some_iff.1 h
  rw [List.mem_zipIdx_iff_getElem?]
  simp [hi]

/-! ## The tests one by one -/

theorem checkVariable_eq_ok {index : Nat} {var : Variable}
    (h : p.checkVariable index var = .ok ()) : var.id.index = index ∧ var.ty.isUnit = false := by
  unfold checkVariable at h
  simp only [then_eq_ok, Flaw.excludedBy_eq_ok] at h
  obtain ⟨hid, _, hty, _⟩ := h
  exact ⟨by simpa using hid, by simpa using hty⟩

theorem checkParent_eq_ok {decl : Declaration} {parent : DeclId} (h : p.checkParent decl = .ok ())
    (hp : decl.parent = some parent) :
    ∃ parentDecl, p.decl? parent = some parentDecl ∧ decl.id ∈ parentDecl.children := by
  unfold checkParent at h
  rw [hp] at h
  cases hd : p.decl? parent with
  | none => simp [hd] at h
  | some parentDecl =>
    simp only [hd, Flaw.excludedBy_eq_ok] at h
    exact ⟨parentDecl, rfl, by simpa using h⟩

theorem checkChild_eq_ok {decl : Declaration} {child : DeclId}
    (h : p.checkChild decl child = .ok ()) :
    ∃ childDecl, p.decl? child = some childDecl ∧ childDecl.parent = some decl.id := by
  unfold checkChild at h
  cases hd : p.decl? child with
  | none => simp [hd] at h
  | some childDecl =>
    simp only [hd, Flaw.excludedBy_eq_ok] at h
    exact ⟨childDecl, rfl, by simpa using h⟩

theorem checkLocal_eq_ok {decl : Declaration} {x : VarId} (h : p.checkLocal decl x = .ok ()) :
    ∃ var, p.var? x = some var ∧ var.owner = decl.id := by
  unfold checkLocal at h
  cases hv : p.var? x with
  | none => simp [hv] at h
  | some var =>
    simp only [hv, Flaw.excludedBy_eq_ok] at h
    exact ⟨var, rfl, by simpa using h⟩

theorem checkFunctionLocal_eq_ok {decl : Declaration} {params : List VarId} {x : VarId} {var : Variable}
    (h : p.checkFunctionLocal decl params x = .ok ()) (hv : p.var? x = some var) :
    var.kind = if params.contains x then .param else .local := by
  unfold checkFunctionLocal at h
  simp only [hv, Flaw.excludedBy_eq_ok] at h
  simpa using h

theorem checkAggregateLocal_eq_ok {decl : Declaration} {x : VarId} {var : Variable}
    (h : p.checkAggregateLocal decl x = .ok ()) (hv : p.var? x = some var) : var.kind = .field := by
  unfold checkAggregateLocal at h
  simp only [hv, Flaw.excludedBy_eq_ok] at h
  simpa using h

theorem checkNesting_iff {decl : Declaration} :
    p.checkNesting decl = .ok () ↔ p.checkParent decl = .ok () ∧
      (∀ child ∈ decl.children, p.checkChild decl child = .ok ()) ∧
      p.chainEnds p.declarations.size decl.parent = true := by
  unfold checkNesting
  simp only [then_eq_ok, forM_eq_ok, Flaw.excludedBy_eq_ok]

theorem checkLocals_function_iff {decl : Declaration} {function : FunctionDecl}
    (hk : decl.kind = .function function) :
    p.checkLocals decl = .ok () ↔ (∀ x ∈ decl.locals, p.checkLocal decl x = .ok ()) ∧
      function.params <+: decl.locals ∧
      ∀ x ∈ decl.locals, p.checkFunctionLocal decl function.params x = .ok () := by
  unfold checkLocals
  simp only [hk, then_eq_ok, forM_eq_ok, Flaw.excludedBy_eq_ok, List.isPrefixOf_iff_prefix]

theorem checkLocals_aggregate_iff {decl : Declaration} {aggregate : AggregateDecl}
    (hk : decl.kind = .aggregate aggregate) :
    p.checkLocals decl = .ok () ↔ (∀ x ∈ decl.locals, p.checkLocal decl x = .ok ()) ∧
      aggregate.fields = decl.locals ∧
      ∀ x ∈ decl.locals, p.checkAggregateLocal decl x = .ok () := by
  unfold checkLocals
  simp only [hk, then_eq_ok, forM_eq_ok, Flaw.excludedBy_eq_ok, beq_iff_eq]

theorem checkLocal_of_checkLocals {decl : Declaration} {x : VarId} (h : p.checkLocals decl = .ok ())
    (hx : x ∈ decl.locals) : p.checkLocal decl x = .ok () := by
  cases hk : decl.kind with
  | function function => exact ((checkLocals_function_iff hk).1 h).1 x hx
  | aggregate aggregate => exact ((checkLocals_aggregate_iff hk).1 h).1 x hx

theorem nodup_of_firstRepeated {seen l : List VarId} (hs : seen.Nodup)
    (h : firstRepeated seen l = none) : (seen ++ l).Nodup := by
  induction l generalizing seen with
  | nil => simpa using hs
  | cons x l ih =>
    unfold firstRepeated at h
    split at h
    · simp at h
    · rename_i hx
      have := ih (List.nodup_cons.2 ⟨by simpa using hx, hs⟩) h
      rw [List.perm_middle.nodup_iff]
      simpa using this

theorem checkOwnership_eq_ok (h : p.checkOwnership = .ok ()) :
    p.allLocals.Nodup ∧ p.allLocals.length = p.vars.size := by
  unfold checkOwnership at h
  cases hr : firstRepeated [] p.allLocals with
  | some x => simp [hr] at h
  | none =>
    simp only [hr, Flaw.excludedBy_eq_ok, beq_iff_eq] at h
    exact ⟨by simpa using nodup_of_firstRepeated List.nodup_nil hr, h⟩

/-- As many variables as there are, none twice, are all of them. -/
theorem mem_allLocals {x : VarId} (hn : p.allLocals.Nodup) (hlen : p.allLocals.length = p.vars.size)
    (hlt : ∀ y ∈ p.allLocals, y.index < p.vars.size) (hx : x.index < p.vars.size) :
    x ∈ p.allLocals := by
  have hinj : Function.Injective VarId.index := fun a b h => by
    cases a
    cases b
    exact congrArg VarId.mk h
  have hsub : (p.allLocals.map VarId.index).Subperm (List.range p.vars.size) := by
    refine List.subperm_of_subset (List.Nodup.map hinj hn) fun i hi => ?_
    obtain ⟨y, hy, rfl⟩ := List.mem_map.1 hi
    exact List.mem_range.2 (hlt y hy)
  have hperm := hsub.perm_of_length_le (by simp [hlen])
  exact (List.mem_map_of_injective hinj).1 (hperm.mem_iff.2 (List.mem_range.2 hx))

theorem checkCallee_eq_ok {target : DeclId} {given : Nat} {method : Bool}
    (h : p.checkCallee target given method = .ok ()) : ∃ function,
      p.function? target = some function ∧ p.isMethod target = method ∧
        function.params.length = given := by
  unfold checkCallee at h
  cases hf : p.function? target with
  | none => simp [hf] at h
  | some function =>
    simp only [hf, then_eq_ok, Flaw.excludedBy_eq_ok] at h
    exact ⟨function, rfl, by simpa using h.1, by simpa using h.2⟩

theorem checkNew_eq_ok {target : DeclId} {given : Nat} (h : p.checkNew target given = .ok ()) :
    ∃ aggregate, p.aggregate? target = some aggregate ∧ aggregate.fields.length = given := by
  unfold checkNew at h
  cases ha : p.aggregate? target with
  | none => simp [ha] at h
  | some aggregate =>
    simp only [ha, Flaw.excludedBy_eq_ok] at h
    exact ⟨aggregate, rfl, by simpa using h⟩

theorem checkField_eq_ok {field : VarId} (h : p.checkField field = .ok ()) :
    ∃ var, p.var? field = some var ∧ var.kind = .field := by
  unfold checkField at h
  cases hv : p.var? field with
  | none => simp [hv] at h
  | some var =>
    simp only [hv, Flaw.excludedBy_eq_ok] at h
    exact ⟨var, rfl, by simpa using h⟩

theorem checkVar_eq_ok {id : VarId} (h : p.checkVar id = .ok ()) : ∃ var, p.var? id = some var := by
  unfold checkVar at h
  rw [Flaw.excludedBy_eq_ok] at h
  exact Option.isSome_iff_exists.1 h

theorem checkLet_eq_ok {function : DeclId} {id : VarId} (h : p.checkLet function id = .ok ()) :
    ∃ var, p.var? id = some var ∧ var.owner = function ∧ var.kind = .local := by
  unfold checkLet at h
  cases hv : p.var? id with
  | none => simp [hv] at h
  | some var =>
    simp only [hv, Flaw.excludedBy_eq_ok, Bool.and_eq_true, beq_iff_eq] at h
    exact ⟨var, rfl, h⟩

/-- Every variable stands at its position, and its owner and its type exist. -/
theorem checkVariable_of_check (h : p.check = .ok ()) {var : Variable} (hv : var ∈ p.vars.toList) :
    p.var? var.id = some var ∧ (∃ decl, p.decl? var.owner = some decl) ∧
      p.checkType var.name var.ty = .ok () := by
  obtain ⟨i, hi, rfl⟩ := List.getElem_of_mem hv
  unfold check at h
  simp only [then_eq_ok, forM_eq_ok] at h
  have hvar := h.2.1 (p.vars.toList[i], i) (List.mem_zipIdx_iff_getElem?.2 (by simp))
  unfold checkVariable at hvar
  simp only [then_eq_ok, Flaw.excludedBy_eq_ok, Option.isSome_iff_exists, beq_iff_eq] at hvar
  refine ⟨?_, hvar.2.1, hvar.2.2.2⟩
  rw [var?, hvar.1]
  simp

theorem checkBody_of_check (h : p.check = .ok ()) {decl : Declaration}
    (hd : decl ∈ p.declarations.toList) : p.checkBody decl = .ok () := by
  unfold check at h
  simp only [then_eq_ok, forM_eq_ok] at h
  exact h.2.2.2.2 decl hd

/-! ## All of them -/

theorem checked_of_check (h : p.check = .ok ()) : p.Checked := by
  unfold check at h
  simp only [then_eq_ok, forM_eq_ok] at h
  obtain ⟨hids, hvars, hdecls, howns, hbodies⟩ := h
  have hid : ∀ {id decl}, p.decl? id = some decl → decl.id = id := fun hd =>
    congrArg DeclId.mk (by simpa using Flaw.excludedBy_eq_ok.1 (hids _ (decl?_mem_zipIdx hd)))
  have hnesting : ∀ {id decl}, p.decl? id = some decl → p.checkNesting decl = .ok () := fun hd =>
    (hdecls _ (mem_of_decl? hd)).1
  have hlocals : ∀ {id decl}, p.decl? id = some decl → p.checkLocals decl = .ok () := fun hd =>
    (hdecls _ (mem_of_decl? hd)).2
  have howner : ∀ {id decl x}, p.decl? id = some decl → x ∈ decl.locals →
      ∃ var, p.var? x = some var ∧ var.owner = id := fun hd hx =>
    hid hd ▸ checkLocal_eq_ok (checkLocal_of_checkLocals (hlocals hd) hx)
  obtain ⟨hnodup, hlen⟩ := checkOwnership_eq_ok howns
  exact {
    decl_id := hid
    var_id := fun hv => congrArg VarId.mk (checkVariable_eq_ok (hvars _ (var?_mem_zipIdx hv))).1
    var_ty := fun hv => (checkVariable_eq_ok (hvars _ (var?_mem_zipIdx hv))).2
    child_of_parent := fun hd hp => hid hd ▸ checkParent_eq_ok (checkNesting_iff.1 (hnesting hd)).1 hp
    parent_of_child := fun hd hc =>
      hid hd ▸ checkChild_eq_ok ((checkNesting_iff.1 (hnesting hd)).2.1 _ hc)
    chain_ends := fun hd => (checkNesting_iff.1 (hnesting hd)).2.2
    local_owner := howner
    params_prefix := fun hd hk => ((checkLocals_function_iff hk).1 (hlocals hd)).2.1
    function_local_kind := fun hd hk hx =>
      checkFunctionLocal_eq_ok (((checkLocals_function_iff hk).1 (hlocals hd)).2.2 _ hx)
    fields_eq := fun hd hk => ((checkLocals_aggregate_iff hk).1 (hlocals hd)).2.1
    field_kind := fun hd hk hx =>
      checkAggregateLocal_eq_ok (((checkLocals_aggregate_iff hk).1 (hlocals hd)).2.2 _ hx)
    locals_nodup := hnodup
    declared := by
      intro x var hv
      refine mem_allLocals hnodup hlen (fun y hy => ?_) (var?_eq_some_iff.1 hv).1
      obtain ⟨decl, hdecl, hy⟩ := List.mem_flatMap.1 hy
      obtain ⟨i, hi, rfl⟩ := List.getElem_of_mem hdecl
      have hd : p.decl? ⟨i⟩ = some p.declarations.toList[i] := by simp [decl?]
      obtain ⟨var', hv', -⟩ := howner hd hy
      exact (var?_eq_some_iff.1 hv').1
    body := by
      intro id decl function hd hk
      have hb := hbodies decl (mem_of_decl? hd)
      unfold checkBody at hb
      simp only [hk, then_eq_ok] at hb
      exact hid hd ▸ hb.2 }

end Program

end StaticChain

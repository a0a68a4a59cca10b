import Mathlib.Data.List.ReduceOption
import StaticChain.Proofs.Tables
import StaticChain.Proofs.Typing

/-!
# What capture analysis finds

The captures of a program are found from the uses that its bodies make, each with a path of declarations.
Here they are described without uses and paths, by what the bodies refer to and where they stand: the
variables that are captured (`Program.IsCaptured`), the declarations whose frames are reached from a place
(`Program.Reaches`) and the places that references lead out of (`Program.LeadsOut`). The analysis succeeds
exactly where every reference is enclosed, and what it finds is that (`captures_of_exact`). Neither the order
nor the number of references matters, nor the order in which children are listed.
-/

namespace StaticChain

/-- The declaration that a reference leads to: the owner of a variable, or the declaration whose context is
needed. -/
def Reference.target? (p : Program) : Reference → Option DeclId
  | .variable x => (p.var? x).map Variable.owner
  | .context decl => some decl

/-- The parameter or local that a reference captures where it leads out of its function, with the owner. -/
def Reference.captured? (p : Program) : Reference → Option (VarId × DeclId)
  | .variable x => (p.var? x).bind fun var => if var.kind = .field then none else some (x, var.owner)
  | .context _ => none

theorem Reference.captured?_eq_some_iff {p : Program} {r : Reference} {x : VarId} {owner : DeclId} :
    r.captured? p = some (x, owner) ↔ r = .variable x ∧ ∃ var, p.var? x = some var ∧ var.kind ≠ .field ∧
      var.owner = owner := by
  cases r with
  | «variable» y =>
    simp only [captured?, Option.bind_eq_some_iff, Option.ite_none_left_eq_some, Option.some.injEq,
      Prod.mk.injEq, Reference.variable.injEq]
    constructor
    · rintro ⟨var, hv, hkind, rfl, howner⟩
      exact ⟨rfl, var, hv, hkind, howner⟩
    · rintro ⟨rfl, var, hv, hkind, howner⟩
      exact ⟨var, hv, hkind, rfl, howner⟩
  | context decl => simp [captured?]

namespace Program

variable (p : Program)

/-- A function below the owner of the variable refers to it, and the variable is not a field. -/
def IsCaptured (x : VarId) : Prop :=
  ∃ var useSite, p.var? x = some var ∧ var.kind ≠ .field ∧ .variable x ∈ p.references useSite ∧
    var.owner ∈ p.ancestors useSite

/-- The owner is above the declaration, and a function there or further below refers to a parameter or local
of the owner. -/
def Reaches (id owner : DeclId) : Prop :=
  owner ∈ p.ancestors id ∧ ∃ useSite x var, id ∈ useSite :: p.ancestors useSite ∧
    .variable x ∈ p.references useSite ∧ p.var? x = some var ∧ var.kind ≠ .field ∧ var.owner = owner

/-- A function at the declaration or further below refers to something above the declaration. -/
def LeadsOut (id : DeclId) : Prop :=
  ∃ useSite r target, id ∈ useSite :: p.ancestors useSite ∧ r ∈ p.references useSite ∧
    r.target? p = some target ∧ target ∈ p.ancestors id

variable {p}

theorem exists_function_of_mem_references {useSite : DeclId} {r : Reference} (h : r ∈ p.references useSite) :
    ∃ function, p.function? useSite = some function := by
  unfold references at h
  cases hf : p.function? useSite with
  | none => simp [hf] at h
  | some function => exact ⟨function, rfl⟩

theorem Checked.mem_preorder_of_mem_references (hp : p.Checked) {useSite : DeclId} {r : Reference}
    (h : r ∈ p.references useSite) : useSite ∈ p.preorder := by
  obtain ⟨function, hf⟩ := exists_function_of_mem_references h
  obtain ⟨decl, hd, -⟩ := function?_eq_some_iff.1 hf
  exact hp.mem_preorder hd

theorem Checked.mem_ancestors_of_mem_cons (hp : p.Checked) {a b c : DeclId} (hbc : b ∈ c :: p.ancestors c)
    (hab : a ∈ p.ancestors b) : a ∈ p.ancestors c := by
  rcases List.mem_cons.1 hbc with rfl | hbc
  · exact hab
  · exact hp.ancestors_trans hab hbc

/-- A variable is listed by its owner. -/
theorem Checked.exists_owner (hp : p.Checked) {x : VarId} {var : Variable} (hv : p.var? x = some var) :
    ∃ decl, p.decl? var.owner = some decl ∧ x ∈ decl.locals := by
  obtain ⟨decl, hmem, hx⟩ := List.mem_flatMap.1 (hp.declared hv)
  have hd := hp.decl?_of_mem hmem
  obtain ⟨var', hv', howner⟩ := hp.local_owner hd hx
  rw [hv] at hv'
  cases hv'
  exact ⟨decl, howner ▸ hd, hx⟩

/-- Parameters and locals belong to functions. -/
theorem Checked.isFunction_owner (hp : p.Checked) {x : VarId} {var : Variable} (hv : p.var? x = some var)
    (hkind : var.kind ≠ .field) : p.isFunction var.owner = true := by
  obtain ⟨decl, hd, hx⟩ := hp.exists_owner hv
  cases hk : decl.kind with
  | function function => exact isFunction_iff.2 ⟨function, function?_eq_some_iff.2 ⟨decl, hd, hk⟩⟩
  | aggregate aggregate => exact absurd (hp.field_kind hd hk hx hv) hkind

/-- Fields belong to aggregates. -/
theorem Checked.isAggregate_owner (hp : p.Checked) {x : VarId} {var : Variable} (hv : p.var? x = some var)
    (hkind : var.kind = .field) : p.isAggregate var.owner = true := by
  obtain ⟨decl, hd, hx⟩ := hp.exists_owner hv
  cases hk : decl.kind with
  | function function =>
    have := hp.function_local_kind hd hk hx hv
    rw [hkind] at this
    split at this <;> cases this
  | aggregate aggregate => exact isAggregate_iff.2 ⟨aggregate, aggregate?_eq_some_iff.2 ⟨decl, hd, hk⟩⟩

/-- What lies on the way up to a declaration is what has the declaration above itself. -/
theorem Checked.mem_path_iff (hp : p.Checked) {useSite target id : DeclId}
    (h : target ∈ p.ancestors useSite) :
    id ∈ useSite :: (p.ancestors useSite).takeWhile (· != target) ↔
      id ∈ useSite :: p.ancestors useSite ∧ target ∈ p.ancestors id := by
  induction useSite using hp.parent_induction with
  | root useSite hroot => simp [ancestors_of_root hroot] at h
  | nested useSite parent hpar ih =>
    have hanc := hp.ancestors_of_parent hpar
    by_cases heq : parent = target
    · subst heq
      have hnone : ∀ b ∈ parent :: p.ancestors parent, parent ∉ p.ancestors b := by
        intro b hb hmem
        rcases List.mem_cons.1 hb with rfl | hb
        · exact hp.not_mem_ancestors_self _ hmem
        · exact hp.not_mem_ancestors_self _ (hp.ancestors_trans hmem hb)
      rw [hanc, List.takeWhile_cons_of_neg (by simp), List.mem_singleton, List.mem_cons]
      constructor
      · rintro rfl
        exact ⟨.inl rfl, h⟩
      · rintro ⟨hid | hid, hmem⟩
        · exact hid
        · exact absurd hmem (hnone id hid)
    · have hup : target ∈ p.ancestors parent := by
        rw [hanc] at h
        exact (List.mem_cons.1 h).resolve_left fun h => heq h.symm
      rw [hanc, List.takeWhile_cons_of_pos (by simpa using heq), List.mem_cons, ih hup]
      constructor
      · rintro (rfl | ⟨hid, hmem⟩)
        · exact ⟨List.mem_cons_self, h⟩
        · exact ⟨List.mem_cons_of_mem _ hid, hmem⟩
      · rintro ⟨hid, hmem⟩
        exact (List.mem_cons.1 hid).imp_right fun hid => ⟨hid, hmem⟩

end Program

namespace Captures

variable {p : Program}

/-! ## Uses -/

theorem pathTo_eq_ok {useSite target : DeclId} (var : Option VarId) (h : target ∈ p.ancestors useSite) :
    pathTo p useSite target var = .ok (useSite :: (p.ancestors useSite).takeWhile (· != target)) := by
  unfold pathTo
  rw [if_pos (by simpa using h)]

/-- The use of a reference that leads out of its function. -/
theorem useOf_eq_some (hp : p.Checked) {useSite target : DeclId} {r : Reference}
    (ht : r.target? p = some target) (h : target ∈ p.ancestors useSite) :
    useOf p useSite r =
      .ok (some ⟨useSite :: (p.ancestors useSite).takeWhile (· != target), r.captured? p⟩) := by
  have hne : target ≠ useSite := fun heq => hp.not_mem_ancestors_self useSite (heq ▸ h)
  cases r with
  | «variable» x =>
    obtain ⟨var, hv, rfl⟩ := Option.map_eq_some_iff.1 ht
    unfold useOf
    refine bind_eq_ok.2 ⟨var, Program.getVar_eq_ok.2 hv, ?_⟩
    rw [if_neg hne, pathTo_eq_ok _ h]
    simp only [Reference.captured?, hv, Option.bind_some]
    rfl
  | context decl =>
    cases ht
    unfold useOf
    simp only
    rw [if_neg hne, pathTo_eq_ok _ h]
    rfl

/-- A reference to what its function declares itself makes no use. -/
theorem useOf_eq_none {useSite : DeclId} {r : Reference} (h : r.target? p = some useSite) :
    useOf p useSite r = .ok none := by
  cases r with
  | «variable» x =>
    obtain ⟨var, hv, howner⟩ := Option.map_eq_some_iff.1 h
    unfold useOf
    exact bind_eq_ok.2 ⟨var, Program.getVar_eq_ok.2 hv, if_pos howner⟩
  | context decl =>
    cases h
    unfold useOf
    simp only [if_true]
    rfl

theorem enclosed_iff {useSite : DeclId} {r : Reference} : r.Enclosed p useSite ↔
    ∃ target, r.target? p = some target ∧ target ∈ useSite :: p.ancestors useSite := by
  cases r with
  | «variable» x => simp [Reference.Enclosed, Reference.target?]
  | context decl => simp [Reference.Enclosed, Reference.target?]

theorem exists_useOf (hp : p.Checked) {useSite : DeclId} {r : Reference} (h : r.Enclosed p useSite) :
    ∃ use, useOf p useSite r = .ok use := by
  obtain ⟨target, ht, hmem⟩ := enclosed_iff.1 h
  rcases List.mem_cons.1 hmem with rfl | hmem
  · exact ⟨none, useOf_eq_none ht⟩
  · exact ⟨_, useOf_eq_some hp ht hmem⟩

theorem exists_uses_iff (hp : p.Checked) : (∃ us, uses p = .ok us) ↔
    ∀ useSite, ∀ r ∈ p.references useSite, r.Enclosed p useSite := by
  constructor
  · rintro ⟨us, h⟩ useSite r hr
    unfold uses at h
    obtain ⟨all, hall, -⟩ := bind_eq_ok.1 h
    obtain ⟨found, -, hfound⟩ := exists_of_mapM_eq_ok hall (hp.mem_preorder_of_mem_references hr)
    unfold usesIn at hfound
    obtain ⟨each, heach, -⟩ := bind_eq_ok.1 hfound
    obtain ⟨use, -, huse⟩ := exists_of_mapM_eq_ok heach hr
    exact enclosed_of_useOf huse
  · intro h
    have hin : ∀ useSite, ∃ found, usesIn p useSite = .ok found := by
      intro useSite
      obtain ⟨each, heach⟩ := exists_mapM_eq_ok fun r hr => exists_useOf hp (h useSite r hr)
      exact ⟨each.reduceOption, bind_eq_ok.2 ⟨each, heach, rfl⟩⟩
    obtain ⟨all, hall⟩ := exists_mapM_eq_ok (l := p.preorder) fun useSite _ => hin useSite
    exact ⟨all.flatten, bind_eq_ok.2 ⟨all, hall, rfl⟩⟩

/-- The uses of a program are those of the references that lead out of their functions. -/
theorem mem_uses_iff (hp : p.Checked) {us : List Use} (h : uses p = .ok us) {use : Use} :
    use ∈ us ↔ ∃ useSite, ∃ r ∈ p.references useSite, ∃ target, r.target? p = some target ∧
      target ∈ p.ancestors useSite ∧
      use = ⟨useSite :: (p.ancestors useSite).takeWhile (· != target), r.captured? p⟩ := by
  unfold uses at h
  obtain ⟨all, hall, h⟩ := bind_eq_ok.1 h
  obtain rfl := pure_eq_ok.1 h
  rw [List.mem_flatten]
  constructor
  · rintro ⟨found, hfound, huse⟩
    obtain ⟨useSite, -, hin⟩ := exists_of_forall₂ (mapM_eq_ok.1 hall) hfound
    unfold usesIn at hin
    obtain ⟨each, heach, hin⟩ := bind_eq_ok.1 hin
    obtain rfl := pure_eq_ok.1 hin
    obtain ⟨r, hr, hof⟩ := exists_of_forall₂ (mapM_eq_ok.1 heach) (List.reduceOption_mem_iff.1 huse)
    obtain ⟨target, ht, hmem⟩ := enclosed_iff.1 (enclosed_of_useOf hof)
    rcases List.mem_cons.1 hmem with rfl | hmem
    · rw [useOf_eq_none ht] at hof
      cases hof
    · rw [useOf_eq_some hp ht hmem] at hof
      cases hof
      exact ⟨useSite, r, hr, target, ht, hmem, rfl⟩
  · rintro ⟨useSite, r, hr, target, ht, hmem, rfl⟩
    obtain ⟨found, hfound, hin⟩ := exists_of_mapM_eq_ok hall (hp.mem_preorder_of_mem_references hr)
    refine ⟨found, hfound, ?_⟩
    unfold usesIn at hin
    obtain ⟨each, heach, hin⟩ := bind_eq_ok.1 hin
    obtain rfl := pure_eq_ok.1 hin
    obtain ⟨use, huse, hof⟩ := exists_of_mapM_eq_ok heach hr
    rw [useOf_eq_some hp ht hmem] at hof
    cases hof
    exact List.reduceOption_mem_iff.2 huse

section

variable (hp : p.Checked) {us : List Use} (hus : uses p = .ok us)
include hp hus

theorem capturedBy_iff {x : VarId} : capturedBy us x = true ↔ p.IsCaptured x := by
  simp only [capturedBy, List.any_eq_true, Option.any_eq_true, beq_iff_eq]
  constructor
  · rintro ⟨use, huse, ⟨y, owner⟩, hcaptured, rfl⟩
    obtain ⟨useSite, r, hr, target, ht, hmem, rfl⟩ := (mem_uses_iff hp hus).1 huse
    obtain ⟨rfl, var, hv, hkind, -⟩ := Reference.captured?_eq_some_iff.1 hcaptured
    obtain rfl : var.owner = target := by simpa [Reference.target?, hv] using ht
    exact ⟨var, useSite, hv, hkind, hr, hmem⟩
  · rintro ⟨var, useSite, hv, hkind, hr, hmem⟩
    have huse := (mem_uses_iff hp hus).2
      ⟨useSite, _, hr, var.owner, by simp [Reference.target?, hv], hmem, rfl⟩
    exact ⟨_, huse, (x, var.owner), Reference.captured?_eq_some_iff.2 ⟨rfl, var, hv, hkind, rfl⟩, rfl⟩

theorem reaches_iff {id owner : DeclId} : reaches us id owner = true ↔ p.Reaches id owner := by
  simp only [reaches, List.any_eq_true, Option.any_eq_true, Bool.and_eq_true, beq_iff_eq,
    List.contains_iff_mem]
  constructor
  · rintro ⟨use, huse, hid, ⟨x, owner⟩, hcaptured, rfl⟩
    obtain ⟨useSite, r, hr, target, ht, hmem, rfl⟩ := (mem_uses_iff hp hus).1 huse
    obtain ⟨rfl, var, hv, hkind, howner⟩ := Reference.captured?_eq_some_iff.1 hcaptured
    obtain rfl : var.owner = target := by simpa [Reference.target?, hv] using ht
    obtain ⟨hid, habove⟩ := (hp.mem_path_iff hmem).1 hid
    exact ⟨howner ▸ habove, useSite, x, var, hid, hr, hv, hkind, howner⟩
  · rintro ⟨habove, useSite, x, var, hid, hr, hv, hkind, rfl⟩
    have hmem := hp.mem_ancestors_of_mem_cons hid habove
    have huse := (mem_uses_iff hp hus).2
      ⟨useSite, _, hr, var.owner, by simp [Reference.target?, hv], hmem, rfl⟩
    exact ⟨_, huse, (hp.mem_path_iff hmem).2 ⟨hid, habove⟩, (x, var.owner),
      Reference.captured?_eq_some_iff.2 ⟨rfl, var, hv, hkind, rfl⟩, rfl⟩

theorem crossed_iff {id : DeclId} : crossed us id = true ↔ p.LeadsOut id := by
  simp only [crossed, List.any_eq_true, List.contains_iff_mem]
  constructor
  · rintro ⟨use, huse, hid⟩
    obtain ⟨useSite, r, hr, target, ht, hmem, rfl⟩ := (mem_uses_iff hp hus).1 huse
    obtain ⟨hid, habove⟩ := (hp.mem_path_iff hmem).1 hid
    exact ⟨useSite, r, target, hid, hr, ht, habove⟩
  · rintro ⟨useSite, r, target, hid, hr, ht, habove⟩
    have hmem := hp.mem_ancestors_of_mem_cons hid habove
    exact ⟨_, (mem_uses_iff hp hus).2 ⟨useSite, r, hr, target, ht, hmem, rfl⟩,
      (hp.mem_path_iff hmem).2 ⟨hid, habove⟩⟩

end

/-! ## Captures -/

/-- The captures say of every declaration and variable what holds of it. -/
structure Exact (p : Program) (c : Captures) : Prop where
  isCaptured_iff : ∀ x, c.isCaptured x = true ↔ p.IsCaptured x
  /-- The captured variables of a declaration, in the order in which it lists them. -/
  captured_eq : ∀ {id decl}, p.decl? id = some decl →
    (c.summary? id).map Summary.captured = some (decl.locals.filter c.isCaptured)
  isFrameNeeded_iff : ∀ id, c.isFrameNeeded id = true ↔ p.isFunction id = true ∧
    ∃ x var, p.var? x = some var ∧ var.owner = id ∧ p.IsCaptured x
  isFrameNeeded_iff_reached : ∀ id, c.isFrameNeeded id = true ↔
    ∃ other summary, c.summary? other = some summary ∧ id ∈ summary.passThrough
  passThrough : ∀ {id summary}, c.summary? id = some summary → summary.passThrough.Nodup ∧
    ∀ owner, owner ∈ summary.passThrough ↔ p.Reaches id owner
  needsOuter_iff : ∀ id, c.needsOuter id = true ↔ p.isAggregate id = true ∧ p.LeadsOut id

section

variable (hp : p.Checked) {us : List Use} (hus : uses p = .ok us)

/-- The captures that the uses give. -/
def ofUses (p : Program) (us : List Use) : Captures where
  summaries := p.declarations.map (summaryOf p us)
  captured := (p.vars.toList.map Variable.id).filter (capturedBy us)

theorem of_eq_ok_iff {c : Captures} : Captures.of p = .ok c ↔ ∃ us, uses p = .ok us ∧ ofUses p us = c := by
  unfold Captures.of
  rw [bind_eq_ok]
  exact exists_congr fun us => and_congr_right fun _ => pure_eq_ok

theorem summary?_ofUses (us : List Use) (id : DeclId) :
    (ofUses p us).summary? id = (p.decl? id).map (summaryOf p us) := by
  simp [summary?, ofUses, Program.decl?]

include hp hus

theorem isCaptured_ofUses {x : VarId} : (ofUses p us).isCaptured x = true ↔ p.IsCaptured x := by
  rw [isCaptured, List.contains_iff_mem, ofUses, List.mem_filter, capturedBy_iff hp hus]
  refine and_iff_right_of_imp fun hx => ?_
  obtain ⟨var, -, hv, -⟩ := hx
  obtain ⟨hi, rfl⟩ := Program.var?_eq_some_iff.1 hv
  exact List.mem_map.2 ⟨_, by simp, hp.var_id hv⟩

theorem isFrameNeeded_ofUses {id : DeclId} : (ofUses p us).isFrameNeeded id = true ↔
    p.isFunction id = true ∧ ∃ x var, p.var? x = some var ∧ var.owner = id ∧ p.IsCaptured x := by
  rw [isFrameNeeded, summary?_ofUses, Option.any_map, Option.any_eq_true]
  constructor
  · rintro ⟨decl, hd, h⟩
    simp only [summaryOf, hp.decl_id hd, Bool.and_eq_true, Bool.not_eq_true',
      List.isEmpty_eq_false_iff_exists_mem, List.mem_filter] at h
    obtain ⟨hfun, x, hx, hxc⟩ := h
    obtain ⟨var, hv, howner⟩ := hp.local_owner hd hx
    exact ⟨hfun, x, var, hv, howner, (capturedBy_iff hp hus).1 hxc⟩
  · rintro ⟨hfun, x, var, hv, rfl, hx⟩
    obtain ⟨decl, hd, hmem⟩ := hp.exists_owner hv
    refine ⟨decl, hd, ?_⟩
    simp only [summaryOf, hp.decl_id hd, hfun, Bool.true_and, Bool.not_eq_true',
      List.isEmpty_eq_false_iff_exists_mem, List.mem_filter]
    exact ⟨x, hmem, (capturedBy_iff hp hus).2 hx⟩

theorem passThrough_ofUses {id : DeclId} {summary : Summary}
    (hs : (ofUses p us).summary? id = some summary) : summary.passThrough.Nodup ∧
      ∀ owner, owner ∈ summary.passThrough ↔ p.Reaches id owner := by
  rw [summary?_ofUses] at hs
  obtain ⟨decl, hd, rfl⟩ := Option.map_eq_some_iff.1 hs
  refine ⟨hp.ids_nodup.filter _, fun owner => ?_⟩
  simp only [summaryOf, List.mem_filter, hp.decl_id hd, reaches_iff hp hus]
  refine and_iff_right_of_imp ?_
  rintro ⟨_, _, x, var, _, _, hv, _, howner⟩
  obtain ⟨decl, hd, -⟩ := hp.exists_owner hv
  exact List.mem_map.2 ⟨decl, Program.mem_of_decl? hd, (hp.decl_id hd).trans howner⟩

/-- Frames are what is reached from somewhere. -/
theorem isFrameNeeded_ofUses_iff_reached {id : DeclId} : (ofUses p us).isFrameNeeded id = true ↔
    ∃ other summary, (ofUses p us).summary? other = some summary ∧ id ∈ summary.passThrough := by
  rw [isFrameNeeded_ofUses hp hus]
  constructor
  · rintro ⟨hfun, x, var, hv, rfl, var', useSite, hv', hkind, hr, habove⟩
    rw [hv] at hv'
    cases hv'
    obtain ⟨function, hf⟩ := Program.exists_function_of_mem_references hr
    obtain ⟨decl, hd, -⟩ := Program.function?_eq_some_iff.1 hf
    have hs : (ofUses p us).summary? useSite = some (summaryOf p us decl) := by
      rw [summary?_ofUses, hd]
      rfl
    refine ⟨useSite, _, hs, ((passThrough_ofUses hp hus hs).2 _).2 ?_⟩
    exact ⟨habove, useSite, x, var, List.mem_cons_self, hr, hv, hkind, rfl⟩
  · rintro ⟨other, summary, hs, hmem⟩
    obtain ⟨habove, useSite, x, var, hother, hr, hv, hkind, rfl⟩ :=
      ((passThrough_ofUses hp hus hs).2 _).1 hmem
    refine ⟨hp.isFunction_owner hv hkind, x, var, hv, rfl, var, useSite, hv, hkind, hr, ?_⟩
    exact hp.mem_ancestors_of_mem_cons hother habove

theorem needsOuter_ofUses {id : DeclId} : (ofUses p us).needsOuter id = true ↔
    p.isAggregate id = true ∧ p.LeadsOut id := by
  rw [needsOuter, summary?_ofUses, Option.any_map, Option.any_eq_true]
  constructor
  · rintro ⟨decl, hd, h⟩
    simpa only [Function.comp_apply, summaryOf, hp.decl_id hd, Bool.and_eq_true,
      crossed_iff hp hus] using h
  · rintro ⟨hagg, hleads⟩
    obtain ⟨aggregate, ha⟩ := Program.isAggregate_iff.1 hagg
    obtain ⟨decl, hd, -⟩ := Program.aggregate?_eq_some_iff.1 ha
    refine ⟨decl, hd, ?_⟩
    simp only [summaryOf, hp.decl_id hd, hagg, Bool.true_and]
    exact (crossed_iff hp hus).2 hleads

end

/-- Captures that are found are exact. -/
theorem exact_of_eq_ok (hp : p.Checked) {c : Captures} (h : Captures.of p = .ok c) : c.Exact p := by
  obtain ⟨us, hus, rfl⟩ := of_eq_ok_iff.1 h
  refine ⟨fun x => isCaptured_ofUses hp hus, fun {id decl} hd => ?_, fun id => isFrameNeeded_ofUses hp hus,
    fun id => isFrameNeeded_ofUses_iff_reached hp hus, fun {id summary} => passThrough_ofUses hp hus,
    fun id => needsOuter_ofUses hp hus⟩
  have hby : capturedBy us = (ofUses p us).isCaptured := by
    funext x
    rw [Bool.eq_iff_iff, isCaptured_ofUses hp hus, capturedBy_iff hp hus]
  rw [summary?_ofUses, hd, ← hby]
  rfl

/-- A failure of the analysis comes from a reference that is not enclosed. -/
theorem exists_of_eq_error {defect : Defect} (hp : p.Checked) (h : Captures.of p = .error defect) :
    ∃ useSite, ∃ r ∈ p.references useSite, useOf p useSite r = .error defect ∧ ¬r.Enclosed p useSite := by
  unfold Captures.of at h
  obtain h | ⟨us, -, h⟩ := bind_eq_error.1 h
  swap
  · cases h
  unfold uses at h
  obtain h | ⟨all, -, h⟩ := bind_eq_error.1 h
  swap
  · cases h
  obtain ⟨useSite, -, h⟩ := exists_of_mapM_eq_error h
  unfold usesIn at h
  obtain h | ⟨each, -, h⟩ := bind_eq_error.1 h
  swap
  · cases h
  obtain ⟨r, hr, h⟩ := exists_of_mapM_eq_error h
  refine ⟨useSite, r, hr, h, fun henclosed => ?_⟩
  obtain ⟨use, huse⟩ := exists_useOf hp henclosed
  rw [huse] at h
  cases h

end Captures

/-! ## Order and number of references -/

/-- A declaration without its body and without the order of its children. -/
def Declaration.outline (decl : Declaration) : Declaration :=
  { decl with
    children := []
    kind := match decl.kind with
      | .function function => .function { function with body := [] }
      | .aggregate aggregate => .aggregate aggregate }

/-- Two programs are the same but for their bodies and the order of children, and the bodies refer to the
same, in any order and any number of times. -/
structure Program.Alike (p q : Program) : Prop where
  vars_eq : p.vars = q.vars
  outlines_eq : p.declarations.map Declaration.outline = q.declarations.map Declaration.outline
  references_iff : ∀ id r, r ∈ p.references id ↔ r ∈ q.references id

namespace Program.Alike

variable {p q : Program} (h : p.Alike q)
include h

theorem symm : q.Alike p :=
  ⟨h.vars_eq.symm, h.outlines_eq.symm, fun id r => (h.references_iff id r).symm⟩

theorem decl?_eq (id : DeclId) :
    (p.decl? id).map Declaration.outline = (q.decl? id).map Declaration.outline := by
  have := congrArg (·[id.index]?) h.outlines_eq
  simpa [decl?] using this

theorem var?_eq (x : VarId) : p.var? x = q.var? x := by
  simp [var?, h.vars_eq]

theorem parent?_eq (id : DeclId) : p.parent? id = q.parent? id := by
  have hparent : ∀ d : Option Declaration, d.bind Declaration.parent =
      (d.map Declaration.outline).bind Declaration.parent := by
    rintro (_ | _) <;> rfl
  rw [parent?, parent?, hparent, h.decl?_eq, ← hparent]

theorem ancestors_eq (id : DeclId) : p.ancestors id = q.ancestors id := by
  have hsize : p.declarations.size = q.declarations.size := by
    simpa using congrArg Array.size h.outlines_eq
  have hchain : ∀ n start, p.parentChain n start = q.parentChain n start := by
    intro n
    induction n with
    | zero => intro start; rfl
    | succ n ih =>
      rintro (_ | id)
      · rfl
      · simp only [parentChain, h.parent?_eq, ih]
  rw [ancestors, ancestors, hsize, h.parent?_eq, hchain]

theorem isFunction_eq (id : DeclId) : p.isFunction id = q.isFunction id := by
  have hd := h.decl?_eq id
  unfold isFunction function?
  generalize p.decl? id = d at hd
  generalize q.decl? id = d' at hd
  rcases d with _ | ⟨_, _, _, _, _, _ | _⟩ <;> rcases d' with _ | ⟨_, _, _, _, _, _ | _⟩ <;>
    first | rfl | simp [Declaration.outline] at hd

theorem isAggregate_eq (id : DeclId) : p.isAggregate id = q.isAggregate id := by
  have hd := h.decl?_eq id
  unfold isAggregate aggregate?
  generalize p.decl? id = d at hd
  generalize q.decl? id = d' at hd
  rcases d with _ | ⟨_, _, _, _, _, _ | _⟩ <;> rcases d' with _ | ⟨_, _, _, _, _, _ | _⟩ <;>
    first | rfl | simp [Declaration.outline] at hd

theorem target?_eq (r : Reference) : r.target? p = r.target? q := by
  cases r with
  | «variable» x => simp [Reference.target?, h.var?_eq]
  | context decl => rfl

theorem enclosed_iff {useSite : DeclId} {r : Reference} : r.Enclosed p useSite ↔ r.Enclosed q useSite := by
  rw [Captures.enclosed_iff, Captures.enclosed_iff, h.target?_eq, h.ancestors_eq]

theorem isCaptured_iff {x : VarId} : p.IsCaptured x ↔ q.IsCaptured x := by
  simp only [IsCaptured, h.var?_eq, h.references_iff, h.ancestors_eq]

theorem reaches_iff {id owner : DeclId} : p.Reaches id owner ↔ q.Reaches id owner := by
  simp only [Reaches, h.var?_eq, h.references_iff, h.ancestors_eq]

theorem leadsOut_iff {id : DeclId} : p.LeadsOut id ↔ q.LeadsOut id := by
  simp only [LeadsOut, h.target?_eq, h.references_iff, h.ancestors_eq]

/-- Uses of such programs say the same of a declaration. -/
theorem summaryOf_eq (hp : p.Checked) (hq : q.Checked) {us us' : List Captures.Use}
    (hus : Captures.uses p = .ok us) (hus' : Captures.uses q = .ok us') {d d' : Declaration}
    (hd : d.outline = d'.outline) : Captures.summaryOf p us d = Captures.summaryOf q us' d' := by
  have hid : d.id = d'.id := by simpa [Declaration.outline] using congrArg Declaration.id hd
  have hlocals : d.locals = d'.locals := by
    simpa [Declaration.outline] using congrArg Declaration.locals hd
  have hids : p.declarations.toList.map Declaration.id = q.declarations.toList.map Declaration.id := by
    have hout : ∀ ds : Array Declaration, ds.toList.map Declaration.id =
        (ds.map Declaration.outline).toList.map Declaration.id := by
      intro ds
      rw [Array.toList_map, List.map_map]
      rfl
    rw [hout, h.outlines_eq, ← hout]
  have hby : Captures.capturedBy us = Captures.capturedBy us' := by
    funext x
    rw [Bool.eq_iff_iff, Captures.capturedBy_iff hp hus, Captures.capturedBy_iff hq hus', h.isCaptured_iff]
  have hreaches : Captures.reaches us d'.id = Captures.reaches us' d'.id := by
    funext owner
    rw [Bool.eq_iff_iff, Captures.reaches_iff hp hus, Captures.reaches_iff hq hus', h.reaches_iff]
  have hcrossed : Captures.crossed us d'.id = Captures.crossed us' d'.id := by
    rw [Bool.eq_iff_iff, Captures.crossed_iff hp hus, Captures.crossed_iff hq hus', h.leadsOut_iff]
  simp only [Captures.summaryOf, hid, hlocals, hids, hby, hreaches, hcrossed, h.isFunction_eq,
    h.isAggregate_eq]

theorem captures_of_eq_ok (hp : p.Checked) (hq : q.Checked) {c : Captures}
    (hc : Captures.of p = .ok c) : Captures.of q = .ok c := by
  obtain ⟨us, hus, rfl⟩ := Captures.of_eq_ok_iff.1 hc
  obtain ⟨us', hus'⟩ := (Captures.exists_uses_iff hq).2 fun useSite r hr =>
    h.enclosed_iff.1 ((Captures.exists_uses_iff hp).1 ⟨us, hus⟩ useSite r ((h.references_iff _ _).2 hr))
  refine Captures.of_eq_ok_iff.2 ⟨us', hus', ?_⟩
  have hsummaries : q.declarations.map (Captures.summaryOf q us') =
      p.declarations.map (Captures.summaryOf p us) := by
    have hsize : q.declarations.size = p.declarations.size := by
      simpa using (congrArg Array.size h.outlines_eq).symm
    refine Array.ext (by simpa using hsize) fun i hi hi' => ?_
    simp only [Array.size_map] at hi hi'
    simp only [Array.getElem_map]
    refine (h.summaryOf_eq hp hq hus hus' ?_).symm
    have := h.decl?_eq ⟨i⟩
    simpa [decl?, hi, hi'] using this
  have hby : Captures.capturedBy us' = Captures.capturedBy us := by
    funext x
    rw [Bool.eq_iff_iff, Captures.capturedBy_iff hp hus, Captures.capturedBy_iff hq hus', h.isCaptured_iff]
  simp only [Captures.ofUses, hsummaries, hby, h.vars_eq]

end Program.Alike

/-- Capture analysis succeeds exactly where every reference is enclosed, and fails at a reference that is not
with an error of the compiler. What it finds is what holds of the program, and is the same for programs whose
bodies refer to the same. -/
theorem captures_of_exact {p : Program} (hp : p.check = .ok ()) :
    ((∃ c, Captures.of p = .ok c) ↔ ∀ useSite, ∀ r ∈ p.references useSite, r.Enclosed p useSite) ∧
    (∀ defect, Captures.of p = .error defect → (defect.toDiagnostic p).kind = .compiler ∧ ∃ useSite,
      ∃ r ∈ p.references useSite, Captures.useOf p useSite r = .error defect ∧ ¬r.Enclosed p useSite) ∧
    (∀ c, Captures.of p = .ok c → c.Exact p) ∧
    ∀ q, q.check = .ok () → p.Alike q → ∀ c, Captures.of p = .ok c ↔ Captures.of q = .ok c := by
  have hc := Program.checked_of_check hp
  refine ⟨?_, fun defect h => ⟨rfl, Captures.exists_of_eq_error hc h⟩,
    fun c h => Captures.exact_of_eq_ok hc h, fun q hq h c => ?_⟩
  · rw [← Captures.exists_uses_iff hc]
    simp only [Captures.of_eq_ok_iff]
    constructor
    · rintro ⟨c, us, hus, -⟩
      exact ⟨us, hus⟩
    · rintro ⟨us, hus⟩
      exact ⟨_, us, hus, rfl⟩
  · have hqc := Program.checked_of_check hq
    exact ⟨h.captures_of_eq_ok hc hqc, h.symm.captures_of_eq_ok hqc hc⟩

/-- Of the running total and the offset it is known that they are captured. -/
theorem captures_of_exact_tally : ∃ c, Captures.of tally = .ok c ∧ c.Exact tally ∧
    c.captured = [⟨1⟩, ⟨3⟩] := by
  obtain ⟨c, hc⟩ := exists_of_isOk (show (Captures.of tally).isOk = true by decide +kernel)
  refine ⟨c, hc, (captures_of_exact tally_check).2.2.1 c hc, ?_⟩
  have hcaptured : (Captures.of tally).toOption.any (·.captured == [⟨1⟩, ⟨3⟩]) = true := by decide +kernel
  simpa [hc, Except.toOption] using hcaptured

end StaticChain

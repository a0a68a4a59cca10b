import StaticChain.Proofs.Building
import StaticChain.Proofs.Calls

/-!
# Paths identify declarations

Entry points and exports are named by path: the names around a declaration and its own, with dots between them.
Nothing keeps two declarations from having the same path. The check and the builder let same-named siblings
pass, and a dot in a name reads like one level more. Where siblings have different names and no name has a dot
(`Program.NamesApart`), a path is the path of one declaration at most. Without dots in the names the string can
be split again (`intercalate_inj`), and the way down from a root takes one child for each name
(`NamesApart.eq_of_path_eq`). The lookups by path, in the program and in its module, then agree
(`paths_identify`).
-/

namespace StaticChain

/-- Joined names are known from the string, if no name has a dot. -/
theorem intercalate_inj {l l' : List String} (hl : ∀ s ∈ l, '.' ∉ s.toList) (hl' : ∀ s ∈ l', '.' ∉ s.toList)
    (hne : l ≠ []) (hne' : l' ≠ []) (h : ".".intercalate l = ".".intercalate l') : l = l' := by
  have split : ∀ {l : List String}, (∀ s ∈ l, '.' ∉ s.toList) → l ≠ [] →
      (".".intercalate l).toList.splitOn '.' = l.map String.toList := by
    intro l hl hne
    rw [String.toList_intercalate]
    exact List.splitOn_intercalate '.' (by simpa using hl) (by simpa using hne)
  have hmap := split hl hne
  rw [h, split hl' hne'] at hmap
  exact (List.map_injective_iff.2 (fun _ _ => String.toList_injective) hmap).symm

namespace Program

variable {p : Program} {a b id parent : DeclId} {decl da db : Declaration}

/-- Names tell declarations at one place apart, and do not look like paths. -/
structure NamesApart (p : Program) : Prop where
  roots : ∀ {a b da db}, p.decl? a = some da → p.decl? b = some db → da.parent = none → db.parent = none →
    da.name = db.name → a = b
  children : ∀ {id decl a b da db}, p.decl? id = some decl → a ∈ decl.children → b ∈ decl.children →
    p.decl? a = some da → p.decl? b = some db → da.name = db.name → a = b
  no_dot : ∀ {id decl}, p.decl? id = some decl → '.' ∉ decl.name.toList

/-- What lookups by path are for. -/
structure PathsIdentify (p : Program) : Prop where
  injective : ∀ {a b da db}, p.decl? a = some da → p.decl? b = some db →
    p.qualifiedName a = p.qualifiedName b → a = b
  found : ∀ {id decl}, p.decl? id = some decl → p.findByPath (p.qualifiedName id) = some id
  not_found : ∀ {path}, (∀ id decl, p.decl? id = some decl → p.qualifiedName id ≠ path) →
    p.findByPath path = none
  /-- Whatever the frames are, the function of that name is the one that the declaration is lowered to. -/
  function_found : ∀ {policy n m id}, p.ChildrenDistinct → Nesting.of p policy = .ok n → n.lower = .ok m →
    p.isFunction id = true →
      ∃ f, (n.scope.lowerFunction id).1 = .ok f ∧ m.findFunction? (p.qualifiedName id) = some f

/-! ## Paths -/

theorem pathNames_of_root (h : p.parent? id = none) (name : String) : p.pathNames id name = [name] := by
  simp [pathNames, Checked.ancestors_of_root h]

theorem Checked.pathNames_of_parent (hp : p.Checked) (h : p.parent? id = some parent)
    (hd : p.decl? parent = some decl) (name : String) :
    p.pathNames id name = p.pathNames parent decl.name ++ [name] := by
  simp [pathNames, hp.ancestors_of_parent h, hd]

theorem pathNames_ne_nil (id : DeclId) (name : String) : p.pathNames id name ≠ [] := by
  simp [pathNames]

theorem qualifiedName_eq (hd : p.decl? id = some decl) :
    p.qualifiedName id = ".".intercalate (p.pathNames id decl.name) := by
  simp [qualifiedName, hd]

namespace NamesApart

variable (hn : p.NamesApart)
include hn

theorem no_dot_of_mem_pathNames (hd : p.decl? id = some decl) {s : String}
    (h : s ∈ p.pathNames id decl.name) : '.' ∉ s.toList := by
  simp only [pathNames, List.mem_append, List.mem_reverse, List.mem_filterMap, Option.map_eq_some_iff,
    List.mem_singleton] at h
  rcases h with ⟨a, -, around, ha, rfl⟩ | rfl
  · exact hn.no_dot ha
  · exact hn.no_dot hd

/-- The names on the way down tell declarations apart: the last one does among the children of a declaration
that the others tell apart. -/
theorem eq_of_path_eq (hp : p.Checked) (ha : p.decl? a = some da) (hb : p.decl? b = some db)
    (h : p.pathNames a da.name = p.pathNames b db.name) : a = b := by
  have parent_eq : ∀ {id decl}, p.decl? id = some decl → p.parent? id = decl.parent := by
    intro id decl hd
    simp [parent?, hd]
  induction a using hp.parent_induction generalizing b da db with
  | root a hroot =>
    rw [pathNames_of_root hroot] at h
    cases hpar : p.parent? b with
    | none =>
      rw [pathNames_of_root hpar, List.singleton_inj] at h
      exact hn.roots ha hb (parent_eq ha ▸ hroot) (parent_eq hb ▸ hpar) h
    | some parent =>
      obtain ⟨decl, hd, -⟩ := hp.child_of_parent hb (parent_eq hb ▸ hpar)
      rw [hp.pathNames_of_parent hpar hd] at h
      exact absurd (List.singleton_eq_append_iff.1 h) (by simp [pathNames_ne_nil])
  | nested a pa hpa ih =>
    obtain ⟨decl, hd, hmem⟩ := hp.child_of_parent ha (parent_eq ha ▸ hpa)
    rw [hp.pathNames_of_parent hpa hd] at h
    cases hpar : p.parent? b with
    | none =>
      rw [pathNames_of_root hpar] at h
      exact absurd (List.append_eq_singleton_iff.1 h) (by simp [pathNames_ne_nil])
    | some pb =>
      obtain ⟨decl', hd', hmem'⟩ := hp.child_of_parent hb (parent_eq hb ▸ hpar)
      rw [hp.pathNames_of_parent hpar hd'] at h
      obtain ⟨hpath, hname⟩ := List.append_inj' h rfl
      cases ih hd hd' hpath
      cases hd.symm.trans hd'
      exact hn.children hd hmem hmem' ha hb (List.singleton_inj.1 hname)

theorem qualifiedName_inj (hp : p.Checked) (ha : p.decl? a = some da) (hb : p.decl? b = some db)
    (h : p.qualifiedName a = p.qualifiedName b) : a = b := by
  rw [qualifiedName_eq ha, qualifiedName_eq hb] at h
  exact hn.eq_of_path_eq hp ha hb (intercalate_inj (fun _ => hn.no_dot_of_mem_pathNames ha)
    (fun _ => hn.no_dot_of_mem_pathNames hb) (pathNames_ne_nil _ _) (pathNames_ne_nil _ _) h)

end NamesApart

/-! ## Lookups -/

theorem Checked.exists_decl?_of_findByPath (hp : p.Checked) {path : String} (h : p.findByPath path = some id) :
    (∃ decl, p.decl? id = some decl) ∧ p.qualifiedName id = path := by
  unfold findByPath at h
  obtain ⟨decl, hmem, rfl⟩ := List.mem_map.1 (List.mem_of_find?_eq_some h)
  exact ⟨⟨decl, hp.decl?_of_mem hmem⟩, by simpa using List.find?_some h⟩

/-- The path of a declaration leads to some declaration. -/
theorem Checked.exists_findByPath (hp : p.Checked) (hd : p.decl? id = some decl) :
    ∃ found, p.findByPath (p.qualifiedName id) = some found := by
  rw [← Option.isSome_iff_exists, findByPath, List.find?_isSome]
  exact ⟨id, List.mem_map.2 ⟨decl, mem_of_decl? hd, hp.decl_id hd⟩, by simp⟩

end Program

open Program

/-- A lowered function has the path of its declaration. -/
theorem Nesting.LoweredTo.name_eq {n : Nesting} {id : DeclId} {f : Lir.Function} (h : n.LoweredTo id f) :
    f.name = n.program.qualifiedName id := by
  obtain ⟨_, _, _, _, hcode⟩ := h
  cases hcode
  rw [n.scope_nesting]

/-- Where declarations differ in their paths, the first function with the path of a declaration is the one that
it is lowered to. -/
theorem Nesting.Lowers.findFunction?_eq {n : Nesting} {policy : FramePolicy} {m : Lir.Module}
    (hm : n.Lowers policy m) {id : DeclId} (hf : n.program.isFunction id = true)
    (hinj : ∀ other decl, n.program.decl? other = some decl →
      n.program.qualifiedName other = n.program.qualifiedName id → other = id) :
    ∃ f, n.LoweredTo id f ∧ m.findFunction? (n.program.qualifiedName id) = some f := by
  obtain ⟨function, hfun⟩ := isFunction_iff.1 hf
  obtain ⟨decl, hd, -⟩ := function?_eq_some_iff.1 hfun
  have hmem : id ∈ n.functionOrder := List.mem_filter.2 ⟨hm.built.checked.mem_preorder hd, hf⟩
  obtain ⟨i, hi, rfl⟩ := List.getElem_of_mem hmem
  have hi' : i < m.functions.toList.length := hm.functions.length_eq ▸ hi
  have hlowered : n.LoweredTo n.functionOrder[i] m.functions.toList[i] := hm.functions.get hi hi'
  -- some function has the path, and all that have it are lowered from the same declaration
  obtain ⟨f, hfind⟩ : ∃ f, m.findFunction? (n.program.qualifiedName n.functionOrder[i]) = some f := by
    rw [← Option.isSome_iff_exists, Lir.Module.findFunction?, Array.find?_isSome]
    exact ⟨_, Array.mem_toList_iff.1 (List.getElem_mem hi'), beq_iff_eq.2 hlowered.name_eq⟩
  have hname : f.name = n.program.qualifiedName n.functionOrder[i] := by simpa using Array.find?_some hfind
  obtain ⟨other, hother, hf'⟩ := hm.exists_code (hm.function?_of_findFunction? hfind)
  obtain ⟨decl', hd'⟩ := hm.built.checked.exists_decl_of_mem_preorder (List.mem_filter.1 hother).1
  cases hinj other decl' hd' (hf'.name_eq.symm.trans hname)
  exact ⟨f, hf', hfind⟩

theorem pathsIdentify_of_namesApart {p : Program} (h : p.check = .ok ()) (hn : p.NamesApart) :
    p.PathsIdentify where
  injective := hn.qualifiedName_inj (checked_of_check h)
  found hd := by
    have hp := checked_of_check h
    obtain ⟨found, hfound⟩ := hp.exists_findByPath hd
    obtain ⟨⟨decl', hd'⟩, hpath⟩ := hp.exists_decl?_of_findByPath hfound
    rw [hfound, hn.qualifiedName_inj hp hd' hd hpath]
  not_found {path} hnone := by
    rw [Option.eq_none_iff_forall_not_mem]
    intro id hid
    obtain ⟨⟨decl, hd⟩, hpath⟩ := (checked_of_check h).exists_decl?_of_findByPath hid
    exact hnone id decl hd hpath
  function_found hc hnest hlower hf := by
    have hp := checked_of_check h
    obtain ⟨rfl, hbuilt⟩ := Nesting.built_of_eq_ok hp hnest
    obtain ⟨f, ⟨s, v, hpair, -⟩, hfind⟩ := (Nesting.lowers_of_lower hbuilt hc hlower).findFunction?_eq hf
      fun other decl hd hpath =>
        have ⟨function, hfun⟩ := isFunction_iff.1 hf
        have ⟨decl', hd', _⟩ := function?_eq_some_iff.1 hfun
        hn.qualifiedName_inj hp hd hd' hpath
    exact ⟨f, by rw [hpair], hfind⟩

/-- In a checked program whose names are apart, paths and declarations correspond, and functions are found by
path as declarations are. The check and the builder let other programs pass. -/
theorem paths_identify : (∀ p : Program, p.check = .ok () → p.NamesApart → p.PathsIdentify) ∧
    ∃ ops p, (Builder.empty.applyAll ops).finish = .ok p ∧ p.check = .ok () ∧ ¬p.NamesApart := by
  refine ⟨fun p => pathsIdentify_of_namesApart, ?_⟩
  refine ⟨[.function "f" none .unit, .function "f" none .unit], _, rfl, rfl, fun hn => ?_⟩
  have : (⟨0⟩ : DeclId) = ⟨1⟩ := hn.roots rfl rfl rfl rfl rfl
  cases this

theorem tally_namesApart : tally.NamesApart := by
  have hp := checked_of_check tally_check
  refine ⟨fun {a b da db} ha hb hpa hpb hname => ?_, fun {id decl a b da db} hd ha hb _ _ _ => ?_,
    fun {id decl} hd => ?_⟩
  · have hroots : ∀ x ∈ tally.declarations.toList, ∀ y ∈ tally.declarations.toList, x.parent = none →
        y.parent = none → x.name = y.name → x.id = y.id := by decide
    exact hp.decl_id ha ▸ hp.decl_id hb ▸
      hroots da (mem_of_decl? ha) db (mem_of_decl? hb) hpa hpb hname
  · have hchildren : ∀ x ∈ tally.declarations.toList, ∀ y ∈ x.children, ∀ z ∈ x.children, y = z := by decide
    exact hchildren decl (mem_of_decl? hd) a ha b hb
  · have hdots : ∀ x ∈ tally.declarations.toList, '.' ∉ x.name.toList := by decide
    exact hdots decl (mem_of_decl? hd)

theorem paths_identify_tally : tally.check = .ok () ∧ tally.NamesApart ∧
    tally.findByPath (tally.qualifiedName ⟨3⟩) = some ⟨3⟩ ∧ tally.qualifiedName ⟨3⟩ = "offset.shift" :=
  ⟨tally_check, tally_namesApart, (paths_identify.1 tally tally_check tally_namesApart).found rfl, by decide⟩

end StaticChain

import Mathlib.Data.List.Nodup
import StaticChain.Proofs.Checked

/-!
# Nesting as a forest

In a checked program the parent links form a forest: walking up from a declaration meets its parent
and then everything around the parent (`Checked.ancestors_of_parent`), so declarations on one way up
have different depths. Walking down from a declaration meets everything nested in it
(`Checked.mem_preorderFrom`), and, where no declaration lists a child twice, the walk down the whole
program meets every declaration at most once (`Checked.preorder_nodup`).
-/

namespace StaticChain.Program

variable {p : Program}

/-- No declaration lists a child twice. -/
def ChildrenDistinct (p : Program) : Prop :=
  ∀ decl ∈ p.declarations.toList, decl.children.Nodup

instance (p : Program) : Decidable p.ChildrenDistinct :=
  inferInstanceAs (Decidable (∀ decl ∈ p.declarations.toList, decl.children.Nodup))

theorem parent?_eq_some_iff {id parent : DeclId} :
    p.parent? id = some parent ↔ ∃ decl, p.decl? id = some decl ∧ decl.parent = some parent := by
  simp [parent?, Option.bind_eq_some_iff]

/-! ## Going up -/

/-- A chain that ends within `n` declarations is not cut by a longer bound. -/
theorem parentChain_eq_of_chainEnds {n m : Nat} {start : Option DeclId}
    (h : p.chainEnds n start = true) (hm : n ≤ m) :
    p.parentChain m start = p.parentChain n start := by
  induction n generalizing m start with
  | zero =>
    cases start with
    | none => cases m <;> rfl
    | some id => simp [chainEnds] at h
  | succ n ih =>
    obtain ⟨m, rfl⟩ : ∃ k, m = k + 1 := ⟨m - 1, by omega⟩
    cases start with
    | none => rfl
    | some id => simp [parentChain, ih h (by omega : n ≤ m)]

namespace Checked

variable (hp : p.Checked)
include hp

theorem ancestors_of_parent {id parent : DeclId} (h : p.parent? id = some parent) :
    p.ancestors id = parent :: p.ancestors parent := by
  obtain ⟨decl, hd, hpar⟩ := parent?_eq_some_iff.1 h
  have hends := hp.chain_ends hd
  rw [hpar] at hends
  unfold ancestors
  rw [h]
  obtain ⟨n, hn⟩ : ∃ n, p.declarations.size = n + 1 := by
    obtain ⟨hi, -⟩ := decl?_eq_some_iff.1 hd
    exact ⟨p.declarations.size - 1, by omega⟩
  rw [hn] at hends ⊢
  have htail : p.chainEnds n (p.parent? parent) = true := hends
  rw [parentChain, parentChain_eq_of_chainEnds htail n.le_succ]

theorem depth_of_parent {id parent : DeclId} (h : p.parent? id = some parent) :
    p.depth id = p.depth parent + 1 := by
  simp [depth, hp.ancestors_of_parent h]

omit hp in
theorem ancestors_of_root {id : DeclId} (h : p.parent? id = none) : p.ancestors id = [] := by
  unfold ancestors
  rw [h]
  cases p.declarations.size <;> rfl

/-- To reason about everything around a declaration, go from its parent to itself. -/
theorem parent_induction {motive : DeclId → Prop}
    (root : ∀ id, p.parent? id = none → motive id)
    (nested : ∀ id parent, p.parent? id = some parent → motive parent → motive id) (id : DeclId) :
    motive id := by
  induction h : p.depth id generalizing id with
  | zero =>
    cases hpar : p.parent? id with
    | none => exact root id hpar
    | some parent =>
      rw [hp.depth_of_parent hpar] at h
      omega
  | succ n ih =>
    cases hpar : p.parent? id with
    | none => exact root id hpar
    | some parent =>
      rw [hp.depth_of_parent hpar] at h
      exact nested id parent hpar (ih parent (by omega))

theorem depth_lt_of_mem_ancestors {id a : DeclId} (h : a ∈ p.ancestors id) :
    p.depth a < p.depth id := by
  induction id using hp.parent_induction with
  | root id hroot => simp [ancestors_of_root hroot] at h
  | nested id parent hpar ih =>
    rw [hp.depth_of_parent hpar]
    rw [hp.ancestors_of_parent hpar, List.mem_cons] at h
    rcases h with rfl | h
    · omega
    · have := ih h
      omega

theorem not_mem_ancestors_self (id : DeclId) : id ∉ p.ancestors id := by
  intro h
  have := hp.depth_lt_of_mem_ancestors h
  omega

theorem ancestors_trans {a b c : DeclId} (hab : a ∈ p.ancestors b) (hbc : b ∈ p.ancestors c) :
    a ∈ p.ancestors c := by
  induction c using hp.parent_induction with
  | root c hroot => simp [ancestors_of_root hroot] at hbc
  | nested c parent hpar ih =>
    rw [hp.ancestors_of_parent hpar, List.mem_cons] at hbc ⊢
    rcases hbc with rfl | hbc
    · exact Or.inr hab
    · exact Or.inr (ih hbc)

/-- On one way up there is at most one declaration of each depth. -/
theorem eq_of_depth_eq {a b id : DeclId} (ha : a ∈ id :: p.ancestors id)
    (hb : b ∈ id :: p.ancestors id) (h : p.depth a = p.depth b) : a = b := by
  induction id using hp.parent_induction with
  | root id hroot =>
    rw [ancestors_of_root hroot] at ha hb
    simp_all
  | nested id parent hpar ih =>
    rw [List.mem_cons] at ha hb
    rcases ha with rfl | ha <;> rcases hb with rfl | hb
    · rfl
    · have := hp.depth_lt_of_mem_ancestors hb
      omega
    · have := hp.depth_lt_of_mem_ancestors ha
      omega
    · rw [hp.ancestors_of_parent hpar] at ha hb
      exact ih ha hb

end Checked

theorem isAncestorOrSelf_iff {a id : DeclId} :
    p.isAncestorOrSelf a id = true ↔ a ∈ id :: p.ancestors id := by
  simp [isAncestorOrSelf]

/-! ## Going down -/

theorem mem_preorderFrom_succ_iff {n : Nat} {top id : DeclId} :
    id ∈ p.preorderFrom (n + 1) top ↔
      id = top ∨ ∃ child ∈ p.children top, id ∈ p.preorderFrom n child := by
  simp [preorderFrom]

/-- One level deeper, the walk also meets the children of what it met. -/
theorem mem_preorderFrom_of_child {n : Nat} {top parent id : DeclId}
    (h : parent ∈ p.preorderFrom n top) (hc : id ∈ p.children parent) :
    id ∈ p.preorderFrom (n + 1) top := by
  induction n generalizing top with
  | zero => simp [preorderFrom] at h
  | succ n ih =>
    rw [mem_preorderFrom_succ_iff] at h ⊢
    rcases h with rfl | ⟨child, hchild, h⟩
    · exact Or.inr ⟨id, hc, mem_preorderFrom_succ_iff.2 (Or.inl rfl)⟩
    · exact Or.inr ⟨child, hchild, ih h⟩

namespace Checked

variable (hp : p.Checked)
include hp

theorem parent?_of_mem_children {id child : DeclId} (h : child ∈ p.children id) :
    p.parent? child = some id := by
  unfold children at h
  cases hd : p.decl? id with
  | none => simp [hd] at h
  | some decl =>
    simp only [hd] at h
    exact parent?_eq_some_iff.2 (hp.parent_of_child hd h)

theorem mem_children_of_parent? {id parent : DeclId} (h : p.parent? id = some parent) :
    id ∈ p.children parent := by
  obtain ⟨decl, hd, hpar⟩ := parent?_eq_some_iff.1 h
  obtain ⟨parentDecl, hpd, hc⟩ := hp.child_of_parent hd hpar
  simpa [children, hpd] using hc

theorem mem_preorderFrom_of_mem_parentChain {n : Nat} {top id : DeclId}
    (h : top ∈ p.parentChain n (some id)) : id ∈ p.preorderFrom n top := by
  induction n generalizing id with
  | zero => simp [parentChain] at h
  | succ n ih =>
    rw [parentChain, List.mem_cons] at h
    rcases h with rfl | h
    · exact mem_preorderFrom_succ_iff.2 (Or.inl rfl)
    · cases hpar : p.parent? id with
      | none => cases n <;> simp [hpar, parentChain] at h
      | some parent =>
        rw [hpar] at h
        exact mem_preorderFrom_of_child (ih h) (hp.mem_children_of_parent? hpar)

/-- The walk down from a declaration meets everything nested in it. -/
theorem mem_preorderFrom {top id : DeclId} (h : top ∈ id :: p.ancestors id) :
    id ∈ p.preorderFrom p.levels top :=
  hp.mem_preorderFrom_of_mem_parentChain h

/-- The walk down from a declaration meets nothing else. -/
theorem mem_ancestors_of_mem_preorderFrom {n : Nat} {top id : DeclId}
    (h : id ∈ p.preorderFrom n top) : top ∈ id :: p.ancestors id := by
  induction n generalizing top with
  | zero => simp [preorderFrom] at h
  | succ n ih =>
    rcases mem_preorderFrom_succ_iff.1 h with rfl | ⟨child, hc, h⟩
    · exact List.mem_cons_self
    · have hpar := hp.parent?_of_mem_children hc
      have htop : top ∈ p.ancestors child := by simp [hp.ancestors_of_parent hpar]
      rcases List.mem_cons.1 (ih h) with rfl | h
      · exact List.mem_cons_of_mem _ htop
      · exact List.mem_cons_of_mem _ (hp.ancestors_trans htop h)

omit hp in
theorem children_nodup (hc : p.ChildrenDistinct) (id : DeclId) : (p.children id).Nodup := by
  unfold children
  cases hd : p.decl? id with
  | none => exact List.nodup_nil
  | some decl => exact hc decl (mem_of_decl? hd)

/-- Two declarations of one depth have nothing below them in common. -/
theorem disjoint_preorderFrom {n : Nat} {a b : DeclId} (hd : p.depth a = p.depth b) (hne : a ≠ b) :
    (p.preorderFrom n a).Disjoint (p.preorderFrom n b) := by
  intro id ha hb
  exact hne (hp.eq_of_depth_eq (hp.mem_ancestors_of_mem_preorderFrom ha)
    (hp.mem_ancestors_of_mem_preorderFrom hb) hd)

/-- Walks down from different declarations of one depth meet nothing twice, if each does not. -/
theorem flatMap_preorderFrom_nodup {n d : Nat} {tops : List DeclId} (hn : tops.Nodup)
    (hd : ∀ top ∈ tops, p.depth top = d) (h : ∀ top ∈ tops, (p.preorderFrom n top).Nodup) :
    (tops.flatMap (p.preorderFrom n)).Nodup := by
  rw [List.nodup_flatMap]
  refine ⟨h, hn.imp_of_mem ?_⟩
  intro a b ha hb hne
  exact hp.disjoint_preorderFrom ((hd a ha).trans (hd b hb).symm) hne

theorem preorderFrom_nodup (hc : p.ChildrenDistinct) (n : Nat) (top : DeclId) :
    (p.preorderFrom n top).Nodup := by
  induction n generalizing top with
  | zero => exact List.nodup_nil
  | succ n ih =>
    rw [preorderFrom, List.nodup_cons]
    constructor
    · intro h
      obtain ⟨child, hchild, h⟩ := List.mem_flatMap.1 h
      have hdepth := hp.depth_of_parent (hp.parent?_of_mem_children hchild)
      rcases List.mem_cons.1 (hp.mem_ancestors_of_mem_preorderFrom h) with rfl | h
      · omega
      · have := hp.depth_lt_of_mem_ancestors h
        omega
    · refine hp.flatMap_preorderFrom_nodup (d := p.depth top + 1) (children_nodup hc top) ?_
        fun child _ => ih child
      intro child hchild
      exact hp.depth_of_parent (hp.parent?_of_mem_children hchild)

theorem decl?_of_mem {decl : Declaration} (h : decl ∈ p.declarations.toList) :
    p.decl? decl.id = some decl := by
  obtain ⟨i, hi, rfl⟩ := List.getElem_of_mem h
  have hd : p.decl? ⟨i⟩ = some p.declarations.toList[i] := by
    simp only [Array.length_toList] at hi
    exact decl?_eq_some_iff.2 ⟨hi, by simp⟩
  rw [hp.decl_id hd]
  exact hd

theorem ids_nodup : (p.declarations.toList.map Declaration.id).Nodup := by
  rw [List.nodup_iff_injective_getElem]
  intro ⟨i, hi⟩ ⟨j, hj⟩ h
  simp only [List.length_map, Array.length_toList] at hi hj
  have key : ∀ k (hk : k < p.declarations.size), p.declarations[k].id = ⟨k⟩ := fun k hk =>
    hp.decl_id (decl?_eq_some_iff.2 ⟨hk, rfl⟩)
  simp only [List.getElem_map, Array.getElem_toList, key i hi, key j hj] at h
  simpa using h

theorem roots_nodup : p.roots.Nodup :=
  hp.ids_nodup.sublist (List.filter_sublist.map _)

/-- The walk down the whole program meets no declaration twice. -/
theorem preorder_nodup (hc : p.ChildrenDistinct) : p.preorder.Nodup := by
  refine hp.flatMap_preorderFrom_nodup (d := 0) hp.roots_nodup ?_ fun top _ =>
    hp.preorderFrom_nodup hc _ top
  intro top htop
  obtain ⟨decl, hdecl, rfl⟩ := List.mem_map.1 htop
  obtain ⟨hmem, hnone⟩ := List.mem_filter.1 hdecl
  have hpar : p.parent? decl.id = none := by
    simpa [parent?, hp.decl?_of_mem hmem] using hnone
  simp [depth, ancestors_of_root hpar]

theorem mem_roots_iff {id : DeclId} :
    id ∈ p.roots ↔ ∃ decl, p.decl? id = some decl ∧ decl.parent = none := by
  unfold roots
  rw [List.mem_map]
  constructor
  · rintro ⟨decl, hmem, rfl⟩
    obtain ⟨hmem, hnone⟩ := List.mem_filter.1 hmem
    exact ⟨decl, hp.decl?_of_mem hmem, by simpa using hnone⟩
  · rintro ⟨decl, hd, hnone⟩
    exact ⟨decl, List.mem_filter.2 ⟨mem_of_decl? hd, by simp [hnone]⟩, hp.decl_id hd⟩

/-- Walking up from a declaration ends at a root. -/
theorem exists_root {id : DeclId} {decl : Declaration} (hd : p.decl? id = some decl) :
    ∃ root ∈ p.roots, root ∈ id :: p.ancestors id := by
  induction id using hp.parent_induction generalizing decl with
  | root id hroot =>
    refine ⟨id, hp.mem_roots_iff.2 ⟨decl, hd, ?_⟩, List.mem_cons_self⟩
    simpa [parent?, hd] using hroot
  | nested id parent hpar ih =>
    obtain ⟨decl', hd', hparent⟩ := parent?_eq_some_iff.1 hpar
    obtain ⟨parentDecl, hpd, -⟩ := hp.child_of_parent hd' hparent
    obtain ⟨root, hroot, hmem⟩ := ih hpd
    refine ⟨root, hroot, List.mem_cons_of_mem _ ?_⟩
    rwa [hp.ancestors_of_parent hpar]

/-- The walk down the whole program meets every declaration. -/
theorem mem_preorder {id : DeclId} {decl : Declaration} (hd : p.decl? id = some decl) :
    id ∈ p.preorder := by
  obtain ⟨root, hroot, hmem⟩ := hp.exists_root hd
  exact List.mem_flatMap.2 ⟨root, hroot, hp.mem_preorderFrom hmem⟩

/-- The walk down meets declarations only. -/
theorem exists_decl_of_mem_preorderFrom {n : Nat} {top id : DeclId} {decl : Declaration}
    (hd : p.decl? top = some decl) (h : id ∈ p.preorderFrom n top) : ∃ decl, p.decl? id = some decl := by
  induction n generalizing top decl with
  | zero => simp [preorderFrom] at h
  | succ n ih =>
    rcases mem_preorderFrom_succ_iff.1 h with rfl | ⟨child, hchild, h⟩
    · exact ⟨decl, hd⟩
    · have hchild : child ∈ decl.children := by simpa [children, hd] using hchild
      obtain ⟨childDecl, hd, -⟩ := hp.parent_of_child hd hchild
      exact ih hd h

theorem exists_decl_of_mem_preorder {id : DeclId} (h : id ∈ p.preorder) : ∃ decl, p.decl? id = some decl := by
  obtain ⟨root, hroot, h⟩ := List.mem_flatMap.1 h
  obtain ⟨decl, hd, -⟩ := hp.mem_roots_iff.1 hroot
  exact hp.exists_decl_of_mem_preorderFrom hd h

/-- Of two declarations around a place one is around the other. -/
theorem mem_or_mem_ancestors {a b id : DeclId} (ha : a ∈ id :: p.ancestors id)
    (hb : b ∈ id :: p.ancestors id) : a ∈ b :: p.ancestors b ∨ b ∈ p.ancestors a := by
  induction id using hp.parent_induction with
  | root id hroot =>
    rw [ancestors_of_root hroot, List.mem_singleton] at ha hb
    subst ha hb
    exact .inl List.mem_cons_self
  | nested id parent hpar ih =>
    rcases List.mem_cons.1 hb with rfl | hb'
    · exact .inl ha
    · rcases List.mem_cons.1 ha with rfl | ha'
      · exact .inr hb'
      · rw [hp.ancestors_of_parent hpar] at ha' hb'
        exact ih ha' hb'

omit hp in
theorem exists_parent_of_mem_ancestors {a id : DeclId} (h : a ∈ p.ancestors id) :
    ∃ parent, p.parent? id = some parent := by
  cases hpar : p.parent? id with
  | none => simp [ancestors_of_root hpar] at h
  | some parent => exact ⟨parent, rfl⟩

end Checked

end StaticChain.Program

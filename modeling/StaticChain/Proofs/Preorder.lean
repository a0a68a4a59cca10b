import StaticChain.Proofs.Lowered
import StaticChain.Proofs.Typing

/-!
# The order of all passes

Every pass of the compiler visits the declarations of a checked program in the same order: roots first, every
declaration followed by what is nested in it, siblings as their parent lists them. All declarations are
visited, and parents before their children. Whether a declaration is visited twice is up to the lists of
children, in which the check allows repetitions: the order has none exactly if the lists have none
(`preorder_visits`), and only then do functions stand at the numbers that calls know them by.
-/

namespace StaticChain

theorem sublist_flatMap_of_mem {α β : Type} {f : α → List β} {l : List α} {a : α} (h : a ∈ l) :
    (f a).Sublist (l.flatMap f) := by
  rw [List.flatMap_def]
  exact List.sublist_flatten_of_mem (List.mem_map_of_mem h)

/-- The place of an element in lists put one after another. -/
theorem split_of_flatMap_eq {α β : Type} {f : α → List β} {l : List α} {pre post : List β} {x : β}
    (h : l.flatMap f = pre ++ x :: post) :
    ∃ a ∈ l, ∃ before pre' post', pre = before ++ pre' ∧ f a = pre' ++ x :: post' := by
  induction l generalizing pre with
  | nil => simp at h
  | cons a l ih =>
    rw [List.flatMap_cons] at h
    rcases List.append_eq_append_iff.1 h with ⟨mid, hpre, hrest⟩ | ⟨mid, hpre, hrest⟩
    · obtain ⟨b, hb, before, pre', post', hmid, hf⟩ := ih hrest
      refine ⟨b, List.mem_cons_of_mem _ hb, f a ++ before, pre', post', ?_, hf⟩
      rw [hpre, hmid, List.append_assoc]
    · cases mid with
      | nil =>
        obtain ⟨b, hb, before, pre', post', hmid, hf⟩ := ih
          (show l.flatMap f = [] ++ x :: post by simpa using hrest.symm)
        obtain ⟨rfl, rfl⟩ := List.append_eq_nil_iff.1 hmid.symm
        exact ⟨b, List.mem_cons_of_mem _ hb, pre, [], post', by simp, hf⟩
      | cons y mid =>
        simp only [List.cons_append, List.cons.injEq] at hrest
        obtain ⟨rfl, -⟩ := hrest
        exact ⟨a, List.mem_cons_self, [], pre, mid, rfl, hpre⟩

namespace Program

variable {p : Program}

/-- A declaration and what is nested below it. -/
def walk (p : Program) (id : DeclId) : List DeclId := p.preorderFrom p.levels id

theorem length_parentChain_le {n : Nat} {start : Option DeclId} : (p.parentChain n start).length ≤ n := by
  induction n generalizing start with
  | zero => simp [parentChain]
  | succ n ih =>
    cases start with
    | none => simp [parentChain]
    | some id => simpa [parentChain] using ih

theorem depth_le (p : Program) (id : DeclId) : p.depth id ≤ p.declarations.size :=
  length_parentChain_le

namespace Checked

variable (hp : p.Checked)
include hp

/-- With levels to spare it does not matter how many there are. -/
theorem preorderFrom_eq {n m : Nat} {id : DeclId} (hn : p.declarations.size < n + p.depth id)
    (hm : p.declarations.size < m + p.depth id) : p.preorderFrom n id = p.preorderFrom m id := by
  induction n generalizing m id with
  | zero =>
    have := p.depth_le id
    omega
  | succ n ih =>
    have := p.depth_le id
    obtain ⟨m, rfl⟩ : ∃ k, m = k + 1 := ⟨m - 1, by omega⟩
    simp only [preorderFrom, List.cons.injEq, true_and]
    refine List.flatMap_congr fun child hchild => ?_
    have hdepth := hp.depth_of_parent (hp.parent?_of_mem_children hchild)
    exact ih (by omega) (by omega)

/-- A declaration comes first, then what its children come with, in the order in which it lists them. -/
theorem walk_eq (id : DeclId) : p.walk id = id :: (p.children id).flatMap p.walk := by
  unfold walk levels
  rw [preorderFrom]
  congr 1
  refine List.flatMap_congr fun child hchild => ?_
  have hdepth := hp.depth_of_parent (hp.parent?_of_mem_children hchild)
  exact hp.preorderFrom_eq (by omega) (by omega)

theorem walk_sublist_preorder {id : DeclId} {decl : Declaration} (hd : p.decl? id = some decl) :
    (p.walk id).Sublist p.preorder := by
  induction id using hp.parent_induction generalizing decl with
  | root id hroot =>
    refine sublist_flatMap_of_mem (hp.mem_roots_iff.2 ⟨decl, hd, ?_⟩)
    simpa [parent?, hd] using hroot
  | nested id parent hpar ih =>
    obtain ⟨parentDecl, hpd, -⟩ := hp.child_of_parent hd (by simpa [parent?, hd] using hpar)
    refine List.Sublist.trans ?_ (ih hpd)
    rw [hp.walk_eq parent]
    exact (sublist_flatMap_of_mem (hp.mem_children_of_parent? hpar)).cons _

/-- The children of a declaration keep the order in which it lists them. -/
theorem children_sublist_preorder {id : DeclId} {decl : Declaration} (hd : p.decl? id = some decl) :
    decl.children.Sublist p.preorder := by
  have hfirst : ∀ ids : List DeclId, ids.Sublist (ids.flatMap p.walk) := by
    intro ids
    induction ids with
    | nil => simp
    | cons id ids ih =>
      rw [List.flatMap_cons, hp.walk_eq id, List.cons_append]
      exact (ih.trans (List.sublist_append_right _ _)).cons_cons id
  have hchildren : p.children id = decl.children := by simp [children, hd]
  refine List.Sublist.trans ?_ (hp.walk_sublist_preorder hd)
  rw [hp.walk_eq id, hchildren]
  exact (hfirst decl.children).cons _

/-- Every declaration but the first of a walk has its parent before it. -/
theorem parent_before_of_preorderFrom {n : Nat} {top id : DeclId} {pre post : List DeclId}
    (h : p.preorderFrom n top = pre ++ id :: post) :
    (pre = [] ∧ id = top) ∨ ∃ parent ∈ pre, p.parent? id = some parent := by
  induction n generalizing top pre post with
  | zero => simp [preorderFrom] at h
  | succ n ih =>
    rw [preorderFrom] at h
    cases pre with
    | nil =>
      simp only [List.nil_append, List.cons.injEq] at h
      exact .inl ⟨rfl, h.1.symm⟩
    | cons first pre =>
      simp only [List.cons_append, List.cons.injEq] at h
      obtain ⟨rfl, h⟩ := h
      obtain ⟨child, hchild, before, pre', post', rfl, hwalk⟩ := split_of_flatMap_eq h
      rcases ih hwalk with ⟨-, rfl⟩ | ⟨parent, hmem, hpar⟩
      · exact .inr ⟨top, List.mem_cons_self, hp.parent?_of_mem_children hchild⟩
      · exact .inr ⟨parent, List.mem_cons_of_mem _ (List.mem_append_right _ hmem), hpar⟩

/-- Wherever a nested declaration stands in the order, its parent stands before it. -/
theorem parent_before {id parent : DeclId} {pre post : List DeclId} (h : p.preorder = pre ++ id :: post)
    (hpar : p.parent? id = some parent) : parent ∈ pre := by
  obtain ⟨root, hroot, before, pre', post', rfl, hwalk⟩ := split_of_flatMap_eq h
  rcases hp.parent_before_of_preorderFrom hwalk with ⟨-, rfl⟩ | ⟨parent', hmem, hpar'⟩
  · obtain ⟨decl, hd, hnone⟩ := hp.mem_roots_iff.1 hroot
    simp [parent?, hd, hnone] at hpar
  · obtain rfl := Option.some.inj (hpar.symm.trans hpar')
    exact List.mem_append_right _ hmem

/-- No declaration comes twice exactly if no list of children has one twice. -/
theorem preorder_nodup_iff : p.preorder.Nodup ↔ p.ChildrenDistinct := by
  refine ⟨fun h decl hmem => ?_, hp.preorder_nodup⟩
  exact h.sublist (hp.children_sublist_preorder (hp.decl?_of_mem hmem))

end Checked

end Program

/-- A layout is made for carriers only, and for each of them. -/
theorem Layout.isSome_of? {p : Program} {c : Captures} {struct : Lir.StructId} {id : DeclId} {l : Option Layout}
    (h : of? p c struct id = .ok l) : l.isSome = c.isCarrier p id := by
  unfold of? at h
  obtain ⟨decl, hd, h⟩ := bind_eq_ok.1 h
  have hd := Program.getDecl_eq_ok.1 hd
  cases hs : c.summary? id with
  | none => exact absurd (by simpa only [hs] using h) throw_ne_ok
  | some summary =>
    simp only [hs] at h
    cases hk : decl.kind with
    | function function =>
      have hf := Program.function?_eq_some_iff.2 ⟨decl, hd, hk⟩
      have hcarrier : c.isCarrier p id = summary.frameNeeded := by
        simp [Captures.isCarrier, Captures.isFrameNeeded, hs, Program.isAggregate_of_function hf]
      simp only [hk] at h
      rw [hcarrier]
      split at h
      · rename_i hneeded
        obtain ⟨layout, -, rfl⟩ := map_eq_ok.1 h
        rw [hneeded, Option.isSome_some]
      · rename_i hneeded
        obtain rfl := pure_eq_ok.1 h
        rw [Bool.not_eq_true] at hneeded
        rw [hneeded, Option.isSome_none]
    | aggregate aggregate =>
      have ha := Program.isAggregate_iff.2 ⟨aggregate, Program.aggregate?_eq_some_iff.2 ⟨decl, hd, hk⟩⟩
      simp only [hk] at h
      obtain ⟨layout, -, rfl⟩ := map_eq_ok.1 h
      rw [Captures.isCarrier, ha, Bool.true_or, Option.isSome_some]

/-- Layouts are added in the order of the declarations, one for each carrier. -/
theorem Layouts.owners_extend {p : Program} {c : Captures} (hp : p.Checked) {ids : List DeclId}
    {ls ls' : Layouts} (h : extend p c ids ls = .ok ls') : ls'.layouts.toList.map Layout.owner =
      ls.layouts.toList.map Layout.owner ++ ids.filter (c.isCarrier p) := by
  induction ids generalizing ls with
  | nil =>
    cases h
    simp
  | cons id ids ih =>
    unfold extend at h
    obtain ⟨layout, hl, h⟩ := bind_eq_ok.1 h
    have hcarrier := Layout.isSome_of? hl
    cases layout with
    | none =>
      rw [ih h, List.filter_cons_of_neg (by simp [← hcarrier])]
    | some layout =>
      rw [ih h, List.filter_cons_of_pos (by simp [← hcarrier])]
      simp [(Layout.of_of?_eq hp hl).owner_eq]

/-- There is one layout for each carrier, in the order of the declarations. -/
theorem Layouts.owners_of {p : Program} {c : Captures} (hp : p.Checked) {ls : Layouts}
    (h : Layouts.of p c = .ok ls) : ls.layouts.toList.map Layout.owner = p.preorder.filter (c.isCarrier p) := by
  rw [owners_extend hp h]
  simp [empty]

/-- A function stands at its own number, and every function of the program stands once in the module. -/
theorem Nesting.Lowers.functions_eq {n : Nesting} {policy : FramePolicy} {m : Lir.Module}
    (hm : n.Lowers policy m) : m.functions.toList.map Lir.Function.decl = n.functionOrder ∧
      ∀ (i : Nat) (f : Lir.Function), m.functions[i]? = some f → f.id = ⟨i⟩ := by
  constructor
  · rw [← List.forall₂_eq_eq_eq, List.forall₂_map_left_iff]
    exact (hm.functions.imp fun id f h => (h.hasContext n.scope_nesting).1).flip
  · intro i f hf
    obtain ⟨hlt, rfl⟩ := Array.getElem?_eq_some_iff.1 hf
    have hlt' : i < n.functionOrder.length := by
      rw [hm.functions.length_eq]
      simpa using hlt
    have hlowered := hm.functions.get hlt' (by simpa using hlt)
    simp only [List.get_eq_getElem, Array.getElem_toList] at hlowered
    have htarget := hlowered.function?_eq
    unfold Scope.function? at htarget
    rw [hm.scope_functions] at htarget
    obtain ⟨k, hk, hid⟩ := Option.map_eq_some_iff.1 htarget
    obtain ⟨hklt, hkeq, -⟩ := List.findIdx?_eq_some_iff_getElem.1 hk
    have hnodup := functionOrder_nodup hm.built.checked hm.distinct
    obtain rfl : k = i := (hnodup.getElem_inj_iff).1 (by simpa using hkeq)
    exact hid.symm

/-- The order of a checked program: every declaration is in it, each followed by what is nested in it, and
parents stand before their children. No declaration comes twice exactly if no list of children has one twice.
Then a declaration has one layout at most, and lowering gives one function for each function of the program,
each at its own number. -/
theorem preorder_visits {p : Program} (hp : p.check = .ok ()) :
    (∀ id, id ∈ p.preorder ↔ ∃ decl, p.decl? id = some decl) ∧
    (p.preorder = p.roots.flatMap p.walk ∧ ∀ {id decl}, p.decl? id = some decl →
      p.walk id = id :: decl.children.flatMap p.walk) ∧
    (∀ {id parent pre post}, p.preorder = pre ++ id :: post → p.parent? id = some parent → parent ∈ pre) ∧
    (p.preorder.Nodup ↔ p.ChildrenDistinct) ∧
    (p.ChildrenDistinct → ∀ {policy n}, Nesting.of p policy = .ok n →
      (n.layouts.layouts.toList.map Layout.owner).Nodup ∧ ∀ {m}, n.lower = .ok m →
        m.functions.toList.map Lir.Function.decl = p.preorder.filter p.isFunction ∧
        ∀ (i : Nat) (f : Lir.Function), m.functions[i]? = some f → f.id = ⟨i⟩) := by
  have hc := Program.checked_of_check hp
  refine ⟨fun id => ⟨hc.exists_decl_of_mem_preorder, fun ⟨decl, hd⟩ => hc.mem_preorder hd⟩,
    ⟨rfl, fun {id decl} hd => ?_⟩, hc.parent_before, hc.preorder_nodup_iff, fun hdistinct {policy n} hn => ?_⟩
  · rw [hc.walk_eq id]
    simp [Program.children, hd]
  · obtain ⟨rfl, hbuilt⟩ := Nesting.built_of_eq_ok hc hn
    constructor
    · rw [Layouts.owners_of hc hbuilt.layouts_eq]
      exact (hc.preorder_nodup hdistinct).filter _
    · intro m hm
      exact (Nesting.lowers_of_lower hbuilt hdistinct hm).functions_eq

/-- The running total keeps its functions where calls look for them. -/
theorem preorder_visits_tally : tally.preorder.Nodup ∧ ∃ n m, Nesting.of tally .escapeAnalysis = .ok n ∧
    n.lower = .ok m ∧ ∀ (i : Nat) (f : Lir.Function), m.functions[i]? = some f → f.id = ⟨i⟩ := by
  obtain ⟨-, -, -, hnodup, hrest⟩ := preorder_visits tally_check
  obtain ⟨u, hu⟩ := exists_of_isOk (show (({} : Settings).compile tally).isOk = true by decide +kernel)
  obtain ⟨n, hn, hlower⟩ := Nesting.exists_of_compile hu
  exact ⟨hnodup.2 tally_childrenDistinct, n, _, hn, hlower,
    ((hrest tally_childrenDistinct hn).2 hlower).2⟩

/-- A function that lists one of its two nested functions twice and calls the other. -/
def twins : Program where
  declarations := #[
    ⟨⟨0⟩, "main", none, [], [⟨1⟩, ⟨1⟩, ⟨2⟩], .function {
      params := []
      returnType := .int
      body := [.ret (some (.call ⟨2⟩ []))] }⟩,
    ⟨⟨1⟩, "one", some ⟨0⟩, [], [], .function {
      params := []
      returnType := .int
      body := [.ret (some (.int 1))] }⟩,
    ⟨⟨2⟩, "two", some ⟨0⟩, [], [], .function {
      params := []
      returnType := .int
      body := [.ret (some (.int 2))] }⟩]
  vars := #[]

/-- The check lets repeated children pass. The function listed twice is lowered twice, the one after it
stands behind its number, and the call of it reaches the wrong function. -/
theorem preorder_visits_twice_twins : twins.check = .ok () ∧ twins.preorder = [⟨0⟩, ⟨1⟩, ⟨1⟩, ⟨2⟩] ∧
    ∃ u : CompiledUnit, ({} : Settings).compile twins = .ok u ∧
      u.lir.functions.toList.map Lir.Function.id = [⟨0⟩, ⟨1⟩, ⟨1⟩, ⟨2⟩] ∧
      ((Machine.boot u.lir 10).callByName "main" []).1 = .returned (some (.int 1)) := by
  obtain ⟨u, hu⟩ := exists_of_isOk (show (({} : Settings).compile twins).isOk = true by decide +kernel)
  have hrun : (({} : Settings).compile twins).toOption.any (fun u =>
      u.lir.functions.toList.map Lir.Function.id == [⟨0⟩, ⟨1⟩, ⟨1⟩, ⟨2⟩] &&
        ((Machine.boot u.lir 10).callByName "main" []).1 == .returned (some (.int 1))) = true := by
    decide +kernel
  simp only [hu, Except.toOption, Option.any_some, Bool.and_eq_true, beq_iff_eq] at hrun
  exact ⟨rfl, by decide, u, hu, hrun.1, hrun.2⟩

end StaticChain

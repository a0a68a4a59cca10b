import Mathlib.Data.List.Forall2

/-!
# Computations that succeed

The passes of the compiler are computations in `Except`. What is proved about a program that the
compiler accepts starts from the fact that such a computation succeeded, and takes it apart: a
sequence succeeds when its steps do (`bind_eq_ok`), and a traversal when every element does
(`forM_eq_ok`, `mapM_eq_ok`).
-/

namespace StaticChain

universe u v w

variable {ε : Type u} {α : Type v} {β : Type v}

theorem bind_eq_ok {x : Except ε α} {f : α → Except ε β} {b : β} :
    (x >>= f) = .ok b ↔ ∃ a, x = .ok a ∧ f a = .ok b := by
  cases x with
  | error e => simp [bind, Except.bind]
  | ok a => simp [bind, Except.bind]

theorem bind_eq_error {x : Except ε α} {f : α → Except ε β} {e : ε} :
    (x >>= f) = .error e ↔ x = .error e ∨ ∃ a, x = .ok a ∧ f a = .error e := by
  cases x with
  | error e => simp [bind, Except.bind]
  | ok a => simp [bind, Except.bind]

/-- A test followed by something else succeeds when both do. -/
theorem then_eq_ok {x : Except ε PUnit} {y : Except ε β} {b : β} :
    (x >>= fun _ => y) = .ok b ↔ x = .ok ⟨⟩ ∧ y = .ok b := by
  cases x with
  | error e => simp [bind, Except.bind]
  | ok u => simp [bind, Except.bind]

theorem map_eq_ok {x : Except ε α} {f : α → β} {b : β} :
    (f <$> x) = .ok b ↔ ∃ a, x = .ok a ∧ f a = b := by
  cases x with
  | error e => simp [Functor.map, Except.map]
  | ok a => simp [Functor.map, Except.map]

theorem pure_eq_ok {a b : α} : (pure a : Except ε α) = .ok b ↔ a = b := by
  simp [pure, Except.pure]

theorem throw_ne_ok {e : ε} {a : α} : (throw e : Except ε α) ≠ .ok a := by
  simp [throw, throwThe, MonadExceptOf.throw]

theorem throw_bind_ne_ok {e : ε} {f : α → Except ε β} {b : β} : (throw e >>= f) ≠ .ok b := by
  simp [bind_eq_ok, throw_ne_ok]

theorem exists_of_isOk {x : Except ε α} (h : x.isOk = true) : ∃ a, x = .ok a := by
  cases x with
  | error e => cases h
  | ok a => exact ⟨a, rfl⟩

/-- Computations that begin alike agree, up to a map, if they agree from there on. -/
theorem bind_eq_map_bind {γ : Type v} {g : β → γ} {x : Except ε α} {f : α → Except ε β} {f' : α → Except ε γ}
    (h : ∀ a, x = .ok a → f' a = (f a).map g) : (x >>= f') = (x >>= f).map g := by
  cases x with
  | error e => rfl
  | ok a => exact h a rfl

/-- A traversal for its effects succeeds when it succeeds on every element. -/
theorem forM_eq_ok {α : Type w} {l : List α} {f : α → Except ε Unit} :
    l.forM f = .ok () ↔ ∀ a ∈ l, f a = .ok () := by
  induction l with
  | nil => simp [pure, Except.pure]
  | cons a l ih =>
    have step : (a :: l).forM f = .ok () ↔ f a = .ok () ∧ l.forM f = .ok () := by
      cases h : f a with
      | error e => simp [bind, Except.bind, h]
      | ok u => simp [bind, Except.bind, h]
    rw [step, ih]
    simp

/-- A traversal succeeds when every element has a result, and gives these results in order. -/
theorem mapM_eq_ok {α : Type w} {l : List α} {f : α → Except ε β} {r : List β} :
    l.mapM f = .ok r ↔ List.Forall₂ (fun a b => f a = .ok b) l r := by
  induction l generalizing r with
  | nil =>
    rw [List.mapM_nil, pure_eq_ok, List.forall₂_nil_left_iff]
    exact eq_comm
  | cons a l ih =>
    rw [List.mapM_cons, bind_eq_ok]
    constructor
    · rintro ⟨b, hb, h⟩
      obtain ⟨bs, hbs, h⟩ := bind_eq_ok.1 h
      rw [← pure_eq_ok.1 h]
      exact .cons hb (ih.1 hbs)
    · rintro (_ | ⟨hb, hbs⟩)
      exact ⟨_, hb, bind_eq_ok.2 ⟨_, ih.2 hbs, rfl⟩⟩

/-- In a traversal that succeeds every element has its result. -/
theorem exists_of_mapM_eq_ok {α : Type w} {l : List α} {f : α → Except ε β} {r : List β}
    (h : l.mapM f = .ok r) {a : α} (ha : a ∈ l) : ∃ b ∈ r, f a = .ok b := by
  obtain ⟨i, hi, rfl⟩ := List.getElem_of_mem ha
  have h := mapM_eq_ok.1 h
  have hi' : i < r.length := h.length_eq ▸ hi
  exact ⟨r[i], List.getElem_mem hi', h.get hi hi'⟩

/-- A traversal of elements that all have results succeeds. -/
theorem exists_mapM_eq_ok {α : Type w} {l : List α} {f : α → Except ε β}
    (h : ∀ a ∈ l, ∃ b, f a = .ok b) : ∃ r, l.mapM f = .ok r := by
  induction l with
  | nil => exact ⟨[], rfl⟩
  | cons a l ih =>
    obtain ⟨b, hb⟩ := h a List.mem_cons_self
    obtain ⟨bs, hbs⟩ := ih fun a ha => h a (List.mem_cons_of_mem _ ha)
    exact ⟨b :: bs, mapM_eq_ok.2 (.cons hb (mapM_eq_ok.1 hbs))⟩

/-- A traversal that fails does so at an element. -/
theorem exists_of_mapM_eq_error {α : Type w} {l : List α} {f : α → Except ε β} {e : ε}
    (h : l.mapM f = .error e) : ∃ a ∈ l, f a = .error e := by
  induction l with
  | nil => cases h
  | cons a l ih =>
    rw [List.mapM_cons] at h
    rcases bind_eq_error.1 h with h | ⟨b, -, h⟩
    · exact ⟨a, List.mem_cons_self, h⟩
    · rcases bind_eq_error.1 h with h | ⟨bs, -, h⟩
      · obtain ⟨a', ha', h⟩ := ih h
        exact ⟨a', List.mem_cons_of_mem _ ha', h⟩
      · cases h

/-- In lists that are related element by element, what stands on the right has its partner. -/
theorem exists_of_forall₂ {α : Type v} {β : Type w} {R : α → β → Prop} {l : List α} {r : List β}
    (h : List.Forall₂ R l r) {b : β} (hb : b ∈ r) : ∃ a ∈ l, R a b := by
  obtain ⟨i, hi, rfl⟩ := List.getElem_of_mem hb
  have hi' : i < l.length := h.length_eq ▸ hi
  exact ⟨l[i], List.getElem_mem hi', h.get hi' hi⟩

/-- In lists that are related element by element, partners stand at the same position. -/
theorem exists_getElem?_of_forall₂ {α : Type v} {β : Type w} {R : α → β → Prop} {l : List α}
    {r : List β} (h : List.Forall₂ R l r) {i : Nat} {a : α} (ha : l[i]? = some a) :
    ∃ b, r[i]? = some b ∧ R a b := by
  obtain ⟨hi, rfl⟩ := List.getElem?_eq_some_iff.1 ha
  have hi' : i < r.length := h.length_eq ▸ hi
  exact ⟨r[i], List.getElem?_eq_getElem hi', h.get hi hi'⟩

/-- In lists that are related element by element, what stands at the same position is related. -/
theorem rel_of_forall₂ {α : Type v} {β : Type w} {R : α → β → Prop} {l : List α} {r : List β}
    (h : List.Forall₂ R l r) {i : Nat} {a : α} {b : β} (ha : l[i]? = some a) (hb : r[i]? = some b) : R a b := by
  obtain ⟨b', hb', hR⟩ := exists_getElem?_of_forall₂ h ha
  cases Option.some.inj (hb.symm.trans hb')
  exact hR

/-- What is related to the same elements is related. -/
theorem forall₂_through {α : Type u} {β : Type v} {γ : Type w} {R : α → β → Prop} {S : α → γ → Prop}
    {T : β → γ → Prop} {l : List α} {r : List β} {t : List γ} (hR : List.Forall₂ R l r)
    (hS : List.Forall₂ S l t) (h : ∀ {a b c}, R a b → S a c → T b c) : List.Forall₂ T r t := by
  induction hR generalizing t with
  | nil =>
    cases hS
    exact .nil
  | cons hab _ ih =>
    obtain ⟨⟩ | ⟨hac, hS⟩ := hS
    exact .cons (h hab hac) (ih hS)

end StaticChain

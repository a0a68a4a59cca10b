import StaticChain.Proofs.Evaluation
import StaticChain.Proofs.Pointing

/-!
# Environments and chains

An evaluation keeps every variable in the record of its activation or instance. A machine keeps captured
variables and fields in carriers and the other ones in locals. A `Placement` says which records have
carriers. `Around` relates an environment to the context that stands for it, which is the carrier of the
innermost record that has one: the carriers of an environment are linked to each other in the order in
which the environment lists their records. `Represents` relates the values of the two sides, and `Depicts`
the records to the objects of a store.

Nothing here speaks of steps. A placement only grows in the course of a run, and what holds of an
environment or a value goes on to hold (`Around.extend`, `Represents.extend`).
-/

namespace StaticChain

open Machine

/-- The carrier of a record: whose it is, the object, and the object that it is linked to. -/
structure Carrier where
  decl : DeclId
  object : ObjectId
  link : Option ObjectId

/-- The carriers of the records that have one. -/
abbrev Placement := Nat → Option Carrier

/-- Records keep their carriers. -/
def Placement.Extends (W W' : Placement) : Prop := ∀ r k, W r = some k → W' r = some k

theorem Placement.extends_refl (W : Placement) : W.Extends W := fun _ _ h => h

theorem Placement.Extends.trans {W W' W'' : Placement} (h : W.Extends W') (h' : W'.Extends W'') :
    W.Extends W'' :=
  fun r k hr => h' r k (h r k hr)

/-- The context is the carrier of the innermost record of the environment that has one. -/
inductive Around (n : Nesting) (W : Placement) : Option DeclId → Env → Option ObjectId → Prop
  | nil : Around n W none [] none
  | plain {decl : DeclId} {r : Nat} {env : Env} {context : Option ObjectId} :
      n.captures.isCarrier n.program decl = false →
      Around n W (n.program.parent? decl) env context →
      Around n W (some decl) ((decl, r) :: env) context
  | carrier {decl : DeclId} {r : Nat} {env : Env} {context : Option ObjectId} {o : ObjectId} :
      n.captures.isCarrier n.program decl = true →
      Around n W (n.program.parent? decl) env context → W r = some ⟨decl, o, context⟩ →
      Around n W (some decl) ((decl, r) :: env) (some o)

/-- The value stands for the datum of the type. -/
inductive Represents (n : Nesting) (W : Placement) : ValueType → Datum → Value → Prop
  | int {ty : ValueType} {x : Int64} : ty.IsScalar → Represents n W ty (.int x) (.int x)
  | «instance» {aggregate : DeclId} {env : Env} {o : ObjectId} :
      n.program.isAggregate aggregate = true → Around n W (some aggregate) env (some o) →
      Represents n W (.instanceOf aggregate) (.instance env) (.object o)
  | closure {id : DeclId} {function : FunctionDecl} {target : Lir.FunctionId} {env : Env}
      {context : Option ObjectId} : n.scope.function? id = some target →
      n.program.function? id = some function → Around n W (n.program.parent? id) env context →
      Represents n W (.function (function.params.map n.program.varType) function.returnType)
        (.closure id env) (.closure target context)

/-- The values stand for the data of the types, one by one. -/
inductive RepresentsAll (n : Nesting) (W : Placement) :
    List ValueType → List Datum → List Value → Prop
  | nil : RepresentsAll n W [] [] []
  | cons {ty : ValueType} {d : Datum} {v : Value} {tys : List ValueType} {ds : List Datum}
      {vs : List Value} : Represents n W ty d v → RepresentsAll n W tys ds vs →
      RepresentsAll n W (ty :: tys) (d :: ds) (v :: vs)

/-- The place of a variable holds what its cell holds, or is as unset as the cell. -/
inductive CellHolds (n : Nesting) (W : Placement) (ty : ValueType) :
    Option Datum → Option (Option Value) → Prop
  | unset : CellHolds n W ty none (some none)
  | set {d : Datum} {v : Value} : Represents n W ty d v → CellHolds n W ty (some d) (some (some v))

/-- The object holds the variables of a record that have slots, and the link. -/
structure CarrierHolds (n : Nesting) (W : Placement) (cells : VarId → Option Datum) (k : Carrier)
    (l : Layout) (object : Object) : Prop where
  slot : ∀ x i, l.slotOf? x = some i →
    CellHolds n W (n.program.varType x) (cells x) object.slots[i]?
  link : ∀ i, l.linkSlot? = some i → object.slots[i]? = some (some (.ofContext k.link))
  fields : n.program.isAggregate k.decl = true → ∀ x i, l.slotOf? x = some i → cells x ≠ none

/-- The carriers of the records hold what the memory holds. -/
structure Depicts (n : Nesting) (W : Placement) (memory : Memory) (s : Store) : Prop where
  made : ∀ r k, W r = some k → r < memory.next
  apart : ∀ r r' k k', W r = some k → W r' = some k' → k.object = k'.object → r = r'
  carrier : ∀ r k, W r = some k → ∃ l object, CarrierAt n s k.decl l k.object object ∧
    CarrierHolds n W (memory.cells r) k l object

/-- The variable lives in a local of its function. -/
def Nesting.IsPrivate (n : Nesting) (x : VarId) : Prop :=
  n.captures.isCaptured x = false ∧ ∀ var, n.program.var? x = some var → var.kind ≠ .field

/-! ## Placements that grow -/

section

variable {n : Nesting} {W W' : Placement} {env : Env} {context : Option ObjectId} {ty : ValueType}

theorem Around.extend {start : Option DeclId} (h : Around n W start env context) (hW : W.Extends W') :
    Around n W' start env context := by
  induction h with
  | nil => exact .nil
  | plain hc _ ih => exact .plain hc ih
  | carrier hc _ hr ih => exact .carrier hc ih (hW _ _ hr)

theorem Represents.extend {d : Datum} {v : Value} (h : Represents n W ty d v) (hW : W.Extends W') :
    Represents n W' ty d v := by
  cases h with
  | int hty => exact .int hty
  | «instance» ha henv => exact .instance ha (henv.extend hW)
  | closure ht hf henv => exact .closure ht hf (henv.extend hW)

theorem CellHolds.extend {cell : Option Datum} {place : Option (Option Value)}
    (h : CellHolds n W ty cell place) (hW : W.Extends W') : CellHolds n W' ty cell place := by
  cases h with
  | unset => exact .unset
  | set h => exact .set (h.extend hW)

theorem CarrierHolds.extend {cells : VarId → Option Datum} {k : Carrier} {l : Layout} {object : Object}
    (h : CarrierHolds n W cells k l object) (hW : W.Extends W') :
    CarrierHolds n W' cells k l object :=
  ⟨fun x i hx => (h.slot x i hx).extend hW, h.link, h.fields⟩

end

/-! ## Values of types -/

section

variable {n : Nesting} {W : Placement} {ty : ValueType} {d : Datum} {v : Value}

theorem Represents.int_of_isScalar (h : Represents n W ty d v) (hty : ty.IsScalar) :
    ∃ x, d = .int x ∧ v = .int x := by
  cases h with
  | int _ => exact ⟨_, rfl, rfl⟩
  | _ => rcases hty with hty | hty <;> cases hty

theorem Represents.exists_instance {aggregate : DeclId} (h : Represents n W (.instanceOf aggregate) d v) :
    ∃ env o, d = .instance env ∧ v = .object o ∧ Around n W (some aggregate) env (some o) := by
  cases h with
  | int hty => rcases hty with hty | hty <;> cases hty
  | «instance» _ h => exact ⟨_, _, rfl, rfl, h⟩

theorem Represents.exists_closure {params : List ValueType} {ret : ValueType}
    (h : Represents n W (.function params ret) d v) :
    ∃ id function target env context, d = .closure id env ∧ v = .closure target context ∧
      n.scope.function? id = some target ∧ n.program.function? id = some function ∧
      Around n W (n.program.parent? id) env context ∧ params = function.params.map n.program.varType ∧
      ret = function.returnType := by
  cases h with
  | int hty => rcases hty with hty | hty <;> cases hty
  | closure ht hf h => exact ⟨_, _, _, _, _, rfl, rfl, ht, hf, h, rfl, rfl⟩

theorem Represents.ne_unit (h : Represents n W ty d v) : ty.isUnit = false := by
  cases h with
  | int hty => rcases hty with rfl | rfl <;> rfl
  | _ => rfl

/-- A variable has its place. -/
theorem CellHolds.lt_size {cell : Option Datum} {places : Array (Option Value)} {i : Nat}
    (h : CellHolds n W ty cell places[i]?) : i < places.size := by
  by_contra hlt
  rw [Array.getElem?_eq_none (Nat.le_of_not_lt hlt)] at h
  cases h

theorem RepresentsAll.length_eq {tys : List ValueType} {ds : List Datum} {vs : List Value}
    (h : RepresentsAll n W tys ds vs) : tys.length = vs.length := by
  induction h with
  | nil => rfl
  | cons _ _ ih => simp [ih]

theorem RepresentsAll.get {tys : List ValueType} {ds : List Datum} {vs : List Value}
    (h : RepresentsAll n W tys ds vs) {i : Nat} (hi : tys[i]? = some ty) :
    ∃ d v, ds[i]? = some d ∧ vs[i]? = some v ∧ Represents n W ty d v := by
  induction h generalizing i with
  | nil => simp at hi
  | cons h _ ih =>
    cases i with
    | zero =>
      cases hi
      exact ⟨_, _, rfl, rfl, h⟩
    | succ i => exact ih (by simpa using hi)

end

/-! ## Going up -/

namespace Around

variable {n : Nesting} {policy : FramePolicy} {W : Placement} {env : Env} {context : Option ObjectId}
  {decl target : DeclId}

theorem unique {start start' : Option DeclId} {context' : Option ObjectId}
    (h : Around n W start env context) (h' : Around n W start' env context') : context = context' := by
  induction h generalizing start' context' with
  | nil =>
    cases h'
    rfl
  | plain hc _ ih =>
    cases h' with
    | plain _ h' => exact ih h'
    | carrier hc' =>
      rw [hc] at hc'
      cases hc'
  | carrier hc _ hr ih =>
    cases h' with
    | plain hc' =>
      rw [hc] at hc'
      cases hc'
    | carrier _ _ hr' =>
      rw [hr] at hr'
      cases hr'
      rfl

theorem exists_cons (h : Around n W (some decl) env context) :
    ∃ r rest, env = (decl, r) :: rest ∧ Around n W (n.program.parent? decl) rest
      (if n.captures.isCarrier n.program decl then (W r).bind Carrier.link else context) := by
  cases h with
  | plain hc h => exact ⟨_, _, rfl, by simpa [hc] using h⟩
  | carrier hc h hr => exact ⟨_, _, rfl, by simpa [hc, hr] using h⟩

/-- The carrier of the innermost record. -/
theorem exists_carrier (hc : n.captures.isCarrier n.program decl = true)
    (h : Around n W (some decl) env context) :
    ∃ r rest o link, env = (decl, r) :: rest ∧ context = some o ∧ W r = some ⟨decl, o, link⟩ ∧
      Around n W (n.program.parent? decl) rest link := by
  cases h with
  | plain hc' =>
    rw [hc] at hc'
    cases hc'
  | carrier _ h hr => exact ⟨_, _, _, _, rfl, rfl, hr, h⟩

variable (hp : n.program.Checked)
include hp

/-- An environment lists the declarations around a place. -/
theorem mem_ancestors {start : Option DeclId} (h : Around n W start env context) {r : Nat}
    (hmem : (target, r) ∈ env) : ∃ decl, start = some decl ∧ target ∈ decl :: n.program.ancestors decl := by
  have key : ∀ (decl : DeclId) (r' : Nat) (env : Env),
      ((target, r) ∈ env → ∃ up, n.program.parent? decl = some up ∧
        target ∈ up :: n.program.ancestors up) → (target, r) ∈ (decl, r') :: env →
      target ∈ decl :: n.program.ancestors decl := by
    intro decl r' env ih hmem
    rcases List.mem_cons.1 hmem with heq | hmem
    · cases heq
      simp
    · obtain ⟨up, hup, htarget⟩ := ih hmem
      rw [hp.ancestors_of_parent hup]
      exact List.mem_cons_of_mem _ htarget
  induction h with
  | nil => simp at hmem
  | plain _ _ ih => exact ⟨_, rfl, key _ _ _ ih hmem⟩
  | carrier _ _ _ ih => exact ⟨_, rfl, key _ _ _ ih hmem⟩

/-- Walking up leads to the part of the environment that starts with the declaration. -/
theorem upTo_eq {start : Option DeclId} (h : Around n W start env context) {r : Nat} {rest : Env}
    (hsuffix : (target, r) :: rest <:+ env) : env.upTo target = (target, r) :: rest := by
  have key : ∀ (decl : DeclId) (r' : Nat) (env : Env) (context : Option ObjectId),
      Around n W (n.program.parent? decl) env context →
      ((target, r) :: rest <:+ env → env.upTo target = (target, r) :: rest) →
      (target, r) :: rest <:+ (decl, r') :: env →
      Env.upTo ((decl, r') :: env) target = (target, r) :: rest := by
    intro decl r' env context henv ih hsuffix
    rcases List.suffix_cons_iff.1 hsuffix with heq | hsuffix
    · cases heq
      simp [Env.upTo]
    · have hmem : (target, r) ∈ env := hsuffix.subset (by simp)
      obtain ⟨up, hup, htarget⟩ := henv.mem_ancestors hp hmem
      have hne : decl ≠ target := by
        rintro rfl
        refine hp.not_mem_ancestors_self decl ?_
        rwa [hp.ancestors_of_parent hup]
      rw [← ih hsuffix]
      simp [Env.upTo, hne]
  induction h with
  | nil => simp at hsuffix
  | plain _ henv ih => exact key _ _ _ _ henv ih hsuffix
  | carrier _ henv _ ih => exact key _ _ _ _ henv ih hsuffix

/-- Walking up to a declaration around the place finds the environment of the declaration. -/
theorem exists_upTo (h : Around n W (some decl) env context)
    (ht : target ∈ decl :: n.program.ancestors decl) :
    ∃ context, Around n W (some target) (env.upTo target) context := by
  generalize hstart : some decl = start at h
  induction h generalizing decl with
  | nil => cases hstart
  | @plain d r rest _ hc henv ih =>
    cases hstart
    by_cases heq : d = target
    · subst heq
      exact ⟨_, by simpa [Env.upTo] using Around.plain hc henv⟩
    · cases hpar : n.program.parent? d with
      | none => simp [Program.Checked.ancestors_of_root hpar, Ne.symm heq] at ht
      | some up =>
        rw [hp.ancestors_of_parent hpar] at ht
        obtain ⟨context', h'⟩ := ih ((List.mem_cons.1 ht).resolve_left (Ne.symm heq)) hpar.symm
        exact ⟨context', by simpa [Env.upTo, heq] using h'⟩
  | @carrier d r rest _ o hc henv hr ih =>
    cases hstart
    by_cases heq : d = target
    · subst heq
      exact ⟨_, by simpa [Env.upTo] using Around.carrier hc henv hr⟩
    · cases hpar : n.program.parent? d with
      | none => simp [Program.Checked.ancestors_of_root hpar, Ne.symm heq] at ht
      | some up =>
        rw [hp.ancestors_of_parent hpar] at ht
        obtain ⟨context', h'⟩ := ih ((List.mem_cons.1 ht).resolve_left (Ne.symm heq)) hpar.symm
        exact ⟨context', by simpa [Env.upTo, heq] using h'⟩

omit hp in
/-- The context of a function is the carrier above it, with an environment of its own. -/
theorem above (hn : n.Built policy) (h : Around n W (n.program.parent? decl) env context) :
    (n.above decl = none → context = none) ∧ ∀ carrier, n.above decl = some carrier →
      ∃ o inner, context = some o ∧ inner <:+ env ∧ Around n W (some carrier) inner (some o) := by
  generalize hstart : n.program.parent? decl = start at h
  induction h generalizing decl with
  | nil => simp [Nesting.Built.above_of_root hstart]
  | plain hc _ ih =>
    rw [hn.above_of_parent hstart, if_neg (by simp [hc])]
    obtain ⟨hnone, hsome⟩ := ih rfl
    refine ⟨hnone, fun carrier hcarrier => ?_⟩
    obtain ⟨o, inner, ho, hsuffix, hinner⟩ := hsome carrier hcarrier
    exact ⟨o, inner, ho, hsuffix.trans (List.suffix_cons _ _), hinner⟩
  | carrier hc henv hr _ =>
    rw [hn.above_of_parent hstart, if_pos hc]
    refine ⟨by simp, ?_⟩
    rintro _ ⟨⟩
    exact ⟨_, _, rfl, List.suffix_refl _, .carrier hc henv hr⟩

/-- A function that is called or named at a place gets the environment of its parent. -/
theorem parentEnv {useSite : DeclId} (h : Around n W (some useSite) env context)
    (ht : ∀ parent, n.program.parent? decl = some parent →
      parent ∈ useSite :: n.program.ancestors useSite) :
    ∃ context, Around n W (n.program.parent? decl) (n.program.parentEnv env decl) context := by
  unfold Program.parentEnv
  cases hpar : n.program.parent? decl with
  | none => exact ⟨none, .nil⟩
  | some parent => exact h.exists_upTo hp (ht parent hpar)

end Around

end StaticChain

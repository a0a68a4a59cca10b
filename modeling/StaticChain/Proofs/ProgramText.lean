import Mathlib.Data.Option.Basic
import Mathlib.Logic.Basic
import StaticChain.Program.Text
import StaticChain.Proofs.Forest
import StaticChain.Proofs.JsonText
import StaticChain.Proofs.Tables
import StaticChain.Proofs.Typing

/-!
# Program files

A program file that was written for a checked program is read back as that program when its arrays
and objects are nested within the limit, and is no program when they are not: `Program.parse_text`.

The readers count levels down, the writers do not count, so the two are compared by what a written
value needs (`Json.depth`): `Json.ReadsAs read value a` says that `read` takes `value` to `a` with
as many levels as the value is deep, and to nothing with fewer. Every type of the program has one
such lemma, with the check of the program as its hypothesis, for a position is written as a number
and read as one of 32 bits.
-/

namespace StaticChain

namespace Json

mutual

/-- How deep arrays and objects are nested in the value. -/
def depth : Json → Nat
  | .arr items => depthItems items + 1
  | .obj members => depthMembers members + 1
  | _ => 0

def depthItems : List Json → Nat
  | [] => 0
  | item :: items => max (depth item) (depthItems items)

def depthMembers : List (Option String × Json) → Nat
  | [] => 0
  | member :: members => max (depth member.2) (depthMembers members)

end

@[simp] theorem variant?_tagged (tag : String) (content : Json) :
    (tagged tag content).variant? = some (tag, some content) := rfl

@[simp] theorem depth_tagged (tag : String) (content : Json) :
    (tagged tag content).depth = content.depth + 1 := by
  simp [tagged, object, depth, depthMembers]

/-- The reader takes the value to `a`, exactly if it is given levels enough. -/
def ReadsAs {α : Type} (read : Nat → Json → Option α) (value : Json) (a : α) : Prop :=
  ∀ n, read n value = if value.depth ≤ n then some a else none

variable {α β : Type} {read : Nat → Json → Option α}

theorem readsAs_of_depth_eq_zero {value : Json} {a : α} (hv : value.depth = 0)
    (h : ∀ n, read n value = some a) : ReadsAs read value a := by
  intro n
  rw [h, hv, if_pos (Nat.zero_le n)]

/-- A condition that is met or ends the computation. -/
theorem ite_bind {c : Prop} [Decidable c] {a : α} {f : α → Option β} :
    (if c then some a else none).bind f = if c then f a else none := by
  split <;> rfl

/-- Conditions met one after the other are met together. -/
theorem ite_ite {c d : Prop} [Decidable c] [Decidable d] {a : α} :
    (if c then if d then some a else none else none) = if c ∧ d then some a else none :=
  (ite_and c d _ _).symm

theorem mapM_eq_ite {write : α → Json} {values : List α}
    (h : ∀ a ∈ values, ReadsAs read (write a) a) (n : Nat) :
    (values.map write).mapM (read n) =
      if depthItems (values.map write) ≤ n then some values else none := by
  induction values with
  | nil => rfl
  | cons a values ih =>
    rw [List.map_cons, List.mapM_cons, h a List.mem_cons_self n,
      ih fun b hb => h b (List.mem_cons_of_mem a hb)]
    simp only [Option.bind_eq_bind, Option.pure_def, ite_bind, ite_ite]
    exact if_congr (by rw [depthItems]; omega) rfl rfl

/-- A list takes a level, and its elements are read with one less. -/
theorem readsAs_list {write : α → Json} {values : List α}
    (h : ∀ a ∈ values, ReadsAs read (write a) a) :
    ReadsAs (listOf? read) (list write values) values := by
  intro n
  cases n with
  | zero => rw [list, depth, if_neg (by omega)]; rfl
  | succ n =>
    rw [list, listOf?, mapM_eq_ite h n]
    exact if_congr (by rw [depth]; omega) rfl rfl

/-- A structure needs one level more than the deepest of its fields. -/
theorem depth_object_le {members : List (String × Json)} {n : Nat} :
    (object members).depth ≤ n + 1 ↔ ∀ m ∈ members, m.2.depth ≤ n := by
  have hmembers : depthMembers (members.map fun m => (some m.1, m.2)) ≤ n ↔
      ∀ m ∈ members, m.2.depth ≤ n := by
    induction members with
    | nil => simp [depthMembers]
    | cons m members ih =>
      rw [List.map_cons, depthMembers, List.forall_mem_cons, ← ih]
      exact Nat.max_le
  rw [← hmembers, object, depth]
  exact Nat.add_le_add_iff_right

/-- An alternative takes a level, and its content is read with one less. -/
theorem readsAs_tagged {tag : String} {content : Json} {a : α}
    (hzero : read 0 (tagged tag content) = none)
    (h : ∀ n, read (n + 1) (tagged tag content) = if content.depth ≤ n then some a else none) :
    ReadsAs read (tagged tag content) a := by
  intro n
  rw [depth_tagged]
  cases n with
  | zero => rw [hzero, if_neg (by omega)]
  | succ n => rw [h]; exact if_congr (by omega) rfl rfl

/-- A structure takes a level, and its fields are read with one less. -/
theorem readsAs_object {members : List (String × Json)} {a : α}
    (hzero : read 0 (object members) = none)
    (h : ∀ n, read (n + 1) (object members) =
      if ∀ m ∈ members, m.2.depth ≤ n then some a else none) :
    ReadsAs read (object members) a := by
  intro n
  cases n with
  | zero => rw [hzero, if_neg (by rw [object, depth]; omega)]
  | succ n => rw [h]; exact if_congr depth_object_le.symm rfl rfl

/-- An alternative whose content is a structure takes a level for each of the two. -/
theorem readsAs_tagged_object {tag : String} {members : List (String × Json)} {a : α}
    (hlt : ∀ n < 2, read n (tagged tag (object members)) = none)
    (h : ∀ n, read (n + 2) (tagged tag (object members)) =
      if ∀ m ∈ members, m.2.depth ≤ n then some a else none) :
    ReadsAs read (tagged tag (object members)) a := by
  refine readsAs_tagged (hlt 0 (by omega)) fun n => ?_
  cases n with
  | zero => rw [hlt 1 (by omega), if_neg (by rw [object, depth]; omega)]
  | succ n => rw [h]; exact if_congr depth_object_le.symm rfl rfl

theorem bareTag?_str (n : Nat) (tag : String) : bareTag? n (.str tag) = some tag := by
  cases n <;> rfl

@[simp] theorem depth_str (text : String) : (Json.str text).depth = 0 := by
  rw [depth] <;> simp

@[simp] theorem depth_declId (id : DeclId) : id.toJson.depth = 0 := by
  rw [DeclId.toJson, Json.nat, depth] <;> simp

@[simp] theorem depth_varId (id : VarId) : id.toJson.depth = 0 := by
  rw [VarId.toJson, Json.nat, depth] <;> simp

end Json

open Json

/-! ## Positions -/

namespace Program

variable {p : Program}

theorem ofJson?_declId (hd : p.declarations.size ≤ UInt32.size) {id : DeclId} {decl : Declaration}
    (h : p.decl? id = some decl) : DeclId.ofJson? id.toJson = some id := by
  have hlt := Nat.lt_of_lt_of_le (decl?_eq_some_iff.1 h).1 hd
  simp [DeclId.ofJson?, DeclId.toJson, Json.nat, word?, nat?, hlt]

theorem ofJson?_varId (hv : p.vars.size ≤ UInt32.size) {id : VarId} {var : Variable}
    (h : p.var? id = some var) : VarId.ofJson? id.toJson = some id := by
  have hlt := Nat.lt_of_lt_of_le (var?_eq_some_iff.1 h).1 hv
  simp [VarId.ofJson?, VarId.toJson, Json.nat, word?, nat?, hlt]

end Program

/-! ## Tags -/

theorem BinOp.ofJson?_tag (n : Nat) (op : BinOp) : ofJson? n (.str op.tag) = some op := by
  rw [ofJson?, bareTag?_str]
  cases op <;> rfl

theorem UnaryOp.ofJson?_tag (n : Nat) (op : UnaryOp) : ofJson? n (.str op.tag) = some op := by
  rw [ofJson?, bareTag?_str]
  cases op <;> rfl

theorem AggregateKind.ofJson?_tag (n : Nat) (kind : AggregateKind) :
    ofJson? n (.str kind.tag) = some kind := by
  rw [ofJson?, bareTag?_str]
  cases kind <;> rfl

theorem VarKind.ofJson?_tag (n : Nat) (kind : VarKind) : ofJson? n (.str kind.tag) = some kind := by
  rw [ofJson?, bareTag?_str]
  cases kind <;> rfl

/-! ## Types -/

namespace ValueType

variable {p : Program} {user : String}

theorem toJsonList_eq_map : ∀ types : List ValueType, toJsonList types = types.map toJson
  | [] => rfl
  | ty :: types => by rw [toJsonList, toJsonList_eq_map types, List.map_cons]

theorem ofJson?_instance (n : Nat) (content : Json) :
    ofJson? (n + 1) (tagged "Instance" content) = (DeclId.ofJson? content).map .instanceOf := by
  simp [ofJson?, tagged, object, variant?]

theorem ofJson?_function (n : Nat) (params ret : Json) :
    ofJson? (n + 2) (tagged "Function" (object [("params", params), ("ret", ret)])) = (do
      let params ← listOf? ofJson? n params
      let ret ← ofJson? n ret
      some (.function params ret)) := by
  rw [ofJson?]
  cases n with
  | zero => simp [tagged, object, variant?, record?, listOf?]
  | succ n => cases params <;> simp [tagged, object, variant?, record?, listOf?]

theorem ofJson?_function_of_lt {n : Nat} (h : n < 2) (members : List (String × Json)) :
    ofJson? n (tagged "Function" (object members)) = none := by
  match n with
  | 0 => simp [ofJson?, tagged, object, bareTag?, variant?]
  | 1 => simp [ofJson?, tagged, object, variant?]

mutual

/-- An alternative with content needs a level, and one more when the content is a structure. -/
theorem readsAs_toJson (hd : p.declarations.size ≤ UInt32.size) :
    ∀ {ty : ValueType}, p.checkType user ty = .ok () → ReadsAs ofJson? ty.toJson ty
  | .unit, _ => readsAs_of_depth_eq_zero rfl fun n => by cases n <;> rfl
  | .int, _ => readsAs_of_depth_eq_zero rfl fun n => by cases n <;> rfl
  | .bool, _ => readsAs_of_depth_eq_zero rfl fun n => by cases n <;> rfl
  | .instanceOf aggregate, h => by
    rw [Program.checkType, Flaw.excludedBy_eq_ok, Program.isAggregate_iff] at h
    obtain ⟨_, ha⟩ := h
    obtain ⟨_, hdecl, -⟩ := Program.aggregate?_eq_some_iff.1 ha
    rw [toJson]
    refine readsAs_tagged rfl fun n => ?_
    rw [ofJson?_instance, Program.ofJson?_declId hd hdecl]
    simp
  | .function params ret, h => by
    rw [Program.checkType, then_eq_ok] at h
    have hparams := readsAs_list (readsAs_each hd h.1)
    have hret := readsAs_toJson hd h.2
    rw [toJson, toJsonList_eq_map]
    refine readsAs_tagged_object (fun n hn => ofJson?_function_of_lt hn _) fun n => ?_
    rw [ofJson?_function, ← Json.list, hparams, hret]
    simp only [Option.bind_eq_bind, ite_bind, ite_ite]
    exact if_congr (by simp) rfl rfl

theorem readsAs_each (hd : p.declarations.size ≤ UInt32.size) :
    ∀ {types : List ValueType}, p.checkTypes user types = .ok () →
      ∀ ty ∈ types, ReadsAs ofJson? ty.toJson ty
  | [], _ => fun _ h => absurd h List.not_mem_nil
  | _ :: _, h => by
    rw [Program.checkTypes, then_eq_ok] at h
    exact List.forall_mem_cons.2 ⟨readsAs_toJson hd h.1, readsAs_each hd h.2⟩

end

end ValueType

/-! ## Expressions -/

theorem Json.int64?_toInt (value : Int64) : (Json.int value.toInt).int64? = some value := by
  have h : Int64.minValue.toInt ≤ value.toInt ∧ value.toInt ≤ Int64.maxValue.toInt :=
    ⟨Int64.minValue_le_toInt value, Int64.toInt_le value⟩
  rw [int64?, if_pos h, Int64.ofInt_toInt]

namespace Expr

variable {p : Program}

theorem toJsonList_eq_map : ∀ exprs : List Expr, toJsonList exprs = exprs.map toJson
  | [] => rfl
  | e :: exprs => by rw [toJsonList, toJsonList_eq_map exprs, List.map_cons]

/-- With one level there is nothing behind a tag but a position, a number or a truth value. -/
theorem ofJson?_of_lt {n : Nat} (h : n < 2) (tag : String) (members : List (String × Json)) :
    ofJson? n (tagged tag (object members)) = none := by
  match n with
  | 0 => rfl
  | 1 =>
    rw [ofJson?, variant?_tagged]
    split
    case h_1 he | h_2 he | h_3 he | h_4 he =>
      cases he
      rfl
    all_goals rfl

attribute [local simp] ofJson?

theorem ofJson?_binary (n : Nat) (op lhs rhs : Json) :
    ofJson? (n + 2) (tagged "Binary" (object [("op", op), ("lhs", lhs), ("rhs", rhs)])) = (do
      let op ← BinOp.ofJson? n op
      let lhs ← ofJson? n lhs
      let rhs ← ofJson? n rhs
      some (.binary op lhs rhs)) := by
  simp [tagged, object, variant?, record?]

theorem ofJson?_unary (n : Nat) (op operand : Json) :
    ofJson? (n + 2) (tagged "Unary" (object [("op", op), ("operand", operand)])) = (do
      let op ← UnaryOp.ofJson? n op
      let operand ← ofJson? n operand
      some (.unary op operand)) := by
  simp [tagged, object, variant?, record?]

theorem ofJson?_call (n : Nat) (function args : Json) :
    ofJson? (n + 2) (tagged "Call" (object [("function", function), ("args", args)])) = (do
      let function ← DeclId.ofJson? function
      let args ← listOf? ofJson? n args
      some (.call function args)) := by
  simp [tagged, object, variant?, record?]
  rfl

theorem ofJson?_methodCall (n : Nat) (receiver method args : Json) :
    ofJson? (n + 2) (tagged "MethodCall"
      (object [("receiver", receiver), ("method", method), ("args", args)])) = (do
        let receiver ← ofJson? n receiver
        let method ← DeclId.ofJson? method
        let args ← listOf? ofJson? n args
        some (.methodCall receiver method args)) := by
  simp [tagged, object, variant?, record?]
  rfl

theorem ofJson?_new (n : Nat) (aggregate args : Json) :
    ofJson? (n + 2) (tagged "New" (object [("aggregate", aggregate), ("args", args)])) = (do
      let aggregate ← DeclId.ofJson? aggregate
      let args ← listOf? ofJson? n args
      some (.new aggregate args)) := by
  simp [tagged, object, variant?, record?]
  rfl

theorem ofJson?_fieldGet (n : Nat) (base field : Json) :
    ofJson? (n + 2) (tagged "FieldGet" (object [("base", base), ("field", field)])) = (do
      let base ← ofJson? n base
      let field ← VarId.ofJson? field
      some (.fieldGet base field)) := by
  simp [tagged, object, variant?, record?]

theorem ofJson?_this (n : Nat) (aggregate : Json) :
    ofJson? (n + 2) (tagged "This" (object [("aggregate", aggregate)])) =
      (DeclId.ofJson? aggregate).map .this := by
  simp [tagged, object, variant?, record?]

theorem ofJson?_callValue (n : Nat) (callee args : Json) :
    ofJson? (n + 2) (tagged "CallValue" (object [("callee", callee), ("args", args)])) = (do
      let callee ← ofJson? n callee
      let args ← listOf? ofJson? n args
      some (.callValue callee args)) := by
  simp [tagged, object, variant?, record?]
  rfl

mutual

theorem readsAs_toJson (hd : p.declarations.size ≤ UInt32.size) (hv : p.vars.size ≤ UInt32.size) :
    ∀ {e : Expr}, p.checkExpr e = .ok () → ReadsAs ofJson? e.toJson e
  | .int value, _ => by
    rw [toJson]
    refine readsAs_tagged rfl fun n => ?_
    simp [ofJson?, tagged, object, variant?, int64?_toInt, depth]
  | .bool value, _ => by
    rw [toJson]
    refine readsAs_tagged rfl fun n => ?_
    simp [ofJson?, tagged, object, variant?, bool?, depth]
  | .var id, h => by
    obtain ⟨var, hvar⟩ := Program.checkVar_eq_ok h
    rw [toJson]
    refine readsAs_tagged rfl fun n => ?_
    simp [ofJson?, tagged, object, variant?, Program.ofJson?_varId hv hvar]
  | .binary op lhs rhs, h => by
    rw [Program.checkExpr, then_eq_ok] at h
    have hlhs := readsAs_toJson hd hv h.1
    have hrhs := readsAs_toJson hd hv h.2
    rw [toJson]
    refine readsAs_tagged_object (fun n hn => ofJson?_of_lt hn _ _) fun n => ?_
    rw [ofJson?_binary, BinOp.ofJson?_tag, hlhs, hrhs]
    simp only [Option.bind_eq_bind, Option.bind_some, ite_bind, ite_ite]
    exact if_congr (by simp) rfl rfl
  | .unary op operand, h => by
    rw [Program.checkExpr] at h
    have hoperand := readsAs_toJson hd hv h
    rw [toJson]
    refine readsAs_tagged_object (fun n hn => ofJson?_of_lt hn _ _) fun n => ?_
    rw [ofJson?_unary, UnaryOp.ofJson?_tag, hoperand]
    simp only [Option.bind_eq_bind, Option.bind_some, ite_bind]
    exact if_congr (by simp) rfl rfl
  | .call function args, h => by
    rw [Program.checkExpr, then_eq_ok] at h
    obtain ⟨_, hf, -⟩ := Program.checkCallee_eq_ok h.1
    obtain ⟨_, hdecl, -⟩ := Program.function?_eq_some_iff.1 hf
    have hargs := readsAs_list (readsAs_each hd hv h.2)
    rw [toJson, toJsonList_eq_map]
    refine readsAs_tagged_object (fun n hn => ofJson?_of_lt hn _ _) fun n => ?_
    rw [ofJson?_call, ← Json.list, Program.ofJson?_declId hd hdecl, hargs]
    simp only [Option.bind_eq_bind, Option.bind_some, ite_bind]
    exact if_congr (by simp) rfl rfl
  | .methodCall receiver method args, h => by
    simp only [Program.checkExpr, then_eq_ok] at h
    obtain ⟨_, hf, -⟩ := Program.checkCallee_eq_ok h.2.1
    obtain ⟨_, hdecl, -⟩ := Program.function?_eq_some_iff.1 hf
    have hreceiver := readsAs_toJson hd hv h.1
    have hargs := readsAs_list (readsAs_each hd hv h.2.2)
    rw [toJson, toJsonList_eq_map]
    refine readsAs_tagged_object (fun n hn => ofJson?_of_lt hn _ _) fun n => ?_
    rw [ofJson?_methodCall, ← Json.list, Program.ofJson?_declId hd hdecl, hreceiver, hargs]
    simp only [Option.bind_eq_bind, Option.bind_some, ite_bind, ite_ite]
    exact if_congr (by simp) rfl rfl
  | .new aggregate args, h => by
    rw [Program.checkExpr, then_eq_ok] at h
    obtain ⟨_, ha, -⟩ := Program.checkNew_eq_ok h.1
    obtain ⟨_, hdecl, -⟩ := Program.aggregate?_eq_some_iff.1 ha
    have hargs := readsAs_list (readsAs_each hd hv h.2)
    rw [toJson, toJsonList_eq_map]
    refine readsAs_tagged_object (fun n hn => ofJson?_of_lt hn _ _) fun n => ?_
    rw [ofJson?_new, ← Json.list, Program.ofJson?_declId hd hdecl, hargs]
    simp only [Option.bind_eq_bind, Option.bind_some, ite_bind]
    exact if_congr (by simp) rfl rfl
  | .fieldGet base field, h => by
    rw [Program.checkExpr, then_eq_ok] at h
    obtain ⟨_, hvar, -⟩ := Program.checkField_eq_ok h.2
    have hbase := readsAs_toJson hd hv h.1
    rw [toJson]
    refine readsAs_tagged_object (fun n hn => ofJson?_of_lt hn _ _) fun n => ?_
    rw [ofJson?_fieldGet, Program.ofJson?_varId hv hvar, hbase]
    simp only [Option.bind_eq_bind, Option.bind_some, ite_bind]
    exact if_congr (by simp) rfl rfl
  | .this aggregate, h => by
    rw [Program.checkExpr, Flaw.excludedBy_eq_ok, Program.isAggregate_iff] at h
    obtain ⟨_, ha⟩ := h
    obtain ⟨_, hdecl, -⟩ := Program.aggregate?_eq_some_iff.1 ha
    rw [toJson]
    refine readsAs_tagged_object (fun n hn => ofJson?_of_lt hn _ _) fun n => ?_
    rw [ofJson?_this, Program.ofJson?_declId hd hdecl]
    simp
  | .functionRef function, h => by
    rw [Program.checkExpr, Flaw.excludedBy_eq_ok, Bool.and_eq_true, Program.isFunction_iff] at h
    obtain ⟨_, hf⟩ := h.1
    obtain ⟨_, hdecl, -⟩ := Program.function?_eq_some_iff.1 hf
    rw [toJson]
    refine readsAs_tagged rfl fun n => ?_
    simp [ofJson?, tagged, object, variant?, Program.ofJson?_declId hd hdecl]
  | .callValue callee args, h => by
    rw [Program.checkExpr, then_eq_ok] at h
    have hcallee := readsAs_toJson hd hv h.1
    have hargs := readsAs_list (readsAs_each hd hv h.2)
    rw [toJson, toJsonList_eq_map]
    refine readsAs_tagged_object (fun n hn => ofJson?_of_lt hn _ _) fun n => ?_
    rw [ofJson?_callValue, ← Json.list, hcallee, hargs]
    simp only [Option.bind_eq_bind, ite_bind, ite_ite]
    exact if_congr (by simp) rfl rfl

theorem readsAs_each (hd : p.declarations.size ≤ UInt32.size) (hv : p.vars.size ≤ UInt32.size) :
    ∀ {exprs : List Expr}, p.checkExprs exprs = .ok () →
      ∀ e ∈ exprs, ReadsAs ofJson? e.toJson e
  | [], _ => fun _ h => absurd h List.not_mem_nil
  | _ :: _, h => by
    rw [Program.checkExprs, then_eq_ok] at h
    exact List.forall_mem_cons.2 ⟨readsAs_toJson hd hv h.1, readsAs_each hd hv h.2⟩

end

theorem depth_pos (e : Expr) : 0 < e.toJson.depth := by
  cases e <;> simp [toJson]

theorem toJson_ne_null (e : Expr) : e.toJson ≠ .null := by
  intro h
  have := e.depth_pos
  simp [h, depth] at this

end Expr

/-! ## Statements -/

namespace Place

variable {p : Program}

theorem ofJson?_field (n : Nat) (base id : Json) :
    ofJson? (n + 2) (tagged "Field" (object [("base", base), ("field", id)])) = (do
      let base ← Expr.ofJson? n base
      let id ← VarId.ofJson? id
      some (.field base id)) := by
  simp [ofJson?, tagged, object, variant?, record?]

theorem ofJson?_of_lt {n : Nat} (h : n < 2) (members : List (String × Json)) :
    ofJson? n (tagged "Field" (object members)) = none := by
  match n with
  | 0 => rfl
  | 1 => simp [ofJson?, tagged, object, variant?]

theorem readsAs_toJson (hd : p.declarations.size ≤ UInt32.size) (hv : p.vars.size ≤ UInt32.size)
    {target : Place} (h : p.checkPlace target = .ok ()) : ReadsAs ofJson? target.toJson target := by
  cases target with
  | var id =>
    obtain ⟨var, hvar⟩ := Program.checkVar_eq_ok h
    refine readsAs_tagged rfl fun n => ?_
    simp [ofJson?, Program.ofJson?_varId hv hvar]
  | field base id =>
    rw [Program.checkPlace, then_eq_ok] at h
    obtain ⟨_, hvar, -⟩ := Program.checkField_eq_ok h.2
    have hbase := Expr.readsAs_toJson hd hv h.1
    refine readsAs_tagged_object (fun n hn => ofJson?_of_lt hn _) fun n => ?_
    rw [ofJson?_field, Program.ofJson?_varId hv hvar, hbase]
    simp only [Option.bind_eq_bind, Option.bind_some, ite_bind]
    exact if_congr (by simp) rfl rfl

end Place

namespace Stmt

variable {p : Program} {function : DeclId}

theorem toJsonList_eq_map : ∀ stmts : List Stmt, toJsonList stmts = stmts.map toJson
  | [] => rfl
  | s :: stmts => by rw [toJsonList, toJsonList_eq_map stmts, List.map_cons]

attribute [local simp] ofJson?

theorem ofJson?_expr (n : Nat) (value : Json) :
    ofJson? (n + 1) (tagged "Expr" value) = (Expr.ofJson? n value).map .expr := by
  simp

theorem ofJson?_ret (n : Nat) {value : Json} (h : value ≠ .null) :
    ofJson? (n + 1) (tagged "Return" value) = (Expr.ofJson? n value).map (.ret ∘ some) := by
  simp

theorem ofJson?_let (n : Nat) (var value : Json) :
    ofJson? (n + 3) (tagged "Let" (object [("var", var), ("value", value)])) = (do
      let var ← VarId.ofJson? var
      let value ← Expr.ofJson? (n + 1) value
      some (.letVar var value)) := by
  simp [object, record?]

theorem ofJson?_assign (n : Nat) (target value : Json) :
    ofJson? (n + 3) (tagged "Assign" (object [("target", target), ("value", value)])) = (do
      let target ← Place.ofJson? (n + 1) target
      let value ← Expr.ofJson? (n + 1) value
      some (.assign target value)) := by
  simp [object, record?]

theorem ofJson?_if (n : Nat) (condition : Json) (thenBlock elseBlock : List Json) :
    ofJson? (n + 3) (tagged "If" (object [("condition", condition), ("then_block", .arr thenBlock),
      ("else_block", .arr elseBlock)])) = (do
        let condition ← Expr.ofJson? (n + 1) condition
        let thenBlock ← listOf? ofJson? (n + 1) (.arr thenBlock)
        let elseBlock ← listOf? ofJson? (n + 1) (.arr elseBlock)
        some (.branch condition thenBlock elseBlock)) := by
  simp [object, record?, listOf?]

theorem ofJson?_while (n : Nat) (condition : Json) (body : List Json) :
    ofJson? (n + 3) (tagged "While" (object [("condition", condition), ("body", .arr body)])) = (do
      let condition ← Expr.ofJson? (n + 1) condition
      let body ← listOf? ofJson? (n + 1) (.arr body)
      some (.loop condition body)) := by
  simp [object, record?, listOf?]

/-- With two levels there is no statement but an expression and a return. -/
theorem ofJson?_of_lt {n : Nat} (h : n < 3) {tag : String} (hexpr : tag ≠ "Expr")
    (hret : tag ≠ "Return") (members : List (String × Json)) :
    ofJson? n (tagged tag (object members)) = none := by
  match n with
  | 0 => rfl
  | 1 => simp [hret]
  | 2 => simp [hret]

/-- A structure with an expression in it takes three levels, and its fields are read with two
less. -/
theorem readsAs_object {tag : String} (hexpr : tag ≠ "Expr") (hret : tag ≠ "Return")
    {members : List (String × Json)} {stmt : Stmt} (hdeep : ∃ m ∈ members, 0 < m.2.depth)
    (h : ∀ n, ofJson? (n + 3) (tagged tag (object members)) =
      if ∀ m ∈ members, m.2.depth ≤ n + 1 then some stmt else none) :
    ReadsAs ofJson? (tagged tag (object members)) stmt := by
  refine readsAs_tagged_object (fun n hn => ofJson?_of_lt (by omega) hexpr hret _) fun n => ?_
  cases n with
  | zero =>
    obtain ⟨m, hm, hpos⟩ := hdeep
    rw [ofJson?_of_lt (by omega) hexpr hret, if_neg fun hall => by have := hall m hm; omega]
  | succ n => exact h n

mutual

theorem readsAs_toJson (hd : p.declarations.size ≤ UInt32.size) (hv : p.vars.size ≤ UInt32.size) :
    ∀ {stmt : Stmt}, p.checkStmt function stmt = .ok () → ReadsAs ofJson? stmt.toJson stmt
  | .letVar id value, h => by
    rw [Program.checkStmt, then_eq_ok] at h
    obtain ⟨_, hvar, -⟩ := Program.checkLet_eq_ok h.1
    have hvalue := Expr.readsAs_toJson hd hv h.2
    rw [toJson]
    refine readsAs_object (by decide) (by decide) (by simp [value.depth_pos]) fun n => ?_
    rw [ofJson?_let, Program.ofJson?_varId hv hvar, hvalue]
    simp only [Option.bind_eq_bind, Option.bind_some, ite_bind]
    exact if_congr (by simp) rfl rfl
  | .assign target value, h => by
    rw [Program.checkStmt, then_eq_ok] at h
    have htarget := Place.readsAs_toJson hd hv h.1
    have hvalue := Expr.readsAs_toJson hd hv h.2
    rw [toJson]
    refine readsAs_object (by decide) (by decide) (by simp [value.depth_pos]) fun n => ?_
    rw [ofJson?_assign, htarget, hvalue]
    simp only [Option.bind_eq_bind, ite_bind, ite_ite]
    exact if_congr (by simp) rfl rfl
  | .expr value, h => by
    have hvalue := Expr.readsAs_toJson hd hv h
    rw [toJson]
    refine readsAs_tagged rfl fun n => ?_
    rw [ofJson?_expr, hvalue]
    split <;> rfl
  | .branch condition thenBlock elseBlock, h => by
    simp only [Program.checkStmt, then_eq_ok] at h
    have hcondition := Expr.readsAs_toJson hd hv h.1
    have hthen := readsAs_list (readsAs_each hd hv h.2.1)
    have helse := readsAs_list (readsAs_each hd hv h.2.2)
    rw [toJson, toJsonList_eq_map, toJsonList_eq_map]
    refine readsAs_object (by decide) (by decide) (by simp [condition.depth_pos]) fun n => ?_
    rw [ofJson?_if, ← Json.list, ← Json.list, hcondition, hthen, helse]
    simp only [Option.bind_eq_bind, ite_bind, ite_ite]
    exact if_congr (by simp) rfl rfl
  | .loop condition body, h => by
    rw [Program.checkStmt, then_eq_ok] at h
    have hcondition := Expr.readsAs_toJson hd hv h.1
    have hbody := readsAs_list (readsAs_each hd hv h.2)
    rw [toJson, toJsonList_eq_map]
    refine readsAs_object (by decide) (by decide) (by simp [condition.depth_pos]) fun n => ?_
    rw [ofJson?_while, ← Json.list, hcondition, hbody]
    simp only [Option.bind_eq_bind, ite_bind, ite_ite]
    exact if_congr (by simp) rfl rfl
  | .ret none, _ => by
    rw [toJson]
    refine readsAs_tagged rfl fun n => ?_
    simp [ofJson?, Json.option, depth]
  | .ret (some value), h => by
    have hvalue := Expr.readsAs_toJson hd hv h
    rw [toJson, Json.option]
    refine readsAs_tagged rfl fun n => ?_
    rw [ofJson?_ret n value.toJson_ne_null, hvalue]
    split <;> rfl

theorem readsAs_each (hd : p.declarations.size ≤ UInt32.size) (hv : p.vars.size ≤ UInt32.size) :
    ∀ {stmts : List Stmt}, p.checkBlock function stmts = .ok () →
      ∀ stmt ∈ stmts, ReadsAs ofJson? stmt.toJson stmt
  | [], _ => fun _ h => absurd h List.not_mem_nil
  | _ :: _, h => by
    rw [Program.checkBlock, then_eq_ok] at h
    exact List.forall_mem_cons.2 ⟨readsAs_toJson hd hv h.1, readsAs_each hd hv h.2⟩

end

end Stmt

/-! ## Declarations -/

namespace Program

variable {p : Program}

theorem readsAs_varIds (hv : p.vars.size ≤ UInt32.size) {ids : List VarId}
    (h : ∀ id ∈ ids, ∃ var, p.var? id = some var) :
    ReadsAs (listOf? fun _ => VarId.ofJson?) (.list VarId.toJson ids) ids :=
  readsAs_list fun id hid => by
    obtain ⟨_, hvar⟩ := h id hid
    exact readsAs_of_depth_eq_zero (depth_varId id) fun _ => ofJson?_varId hv hvar

theorem readsAs_declIds (hd : p.declarations.size ≤ UInt32.size) {ids : List DeclId}
    (h : ∀ id ∈ ids, ∃ decl, p.decl? id = some decl) :
    ReadsAs (listOf? fun _ => DeclId.ofJson?) (.list DeclId.toJson ids) ids :=
  readsAs_list fun id hid => by
    obtain ⟨_, hdecl⟩ := h id hid
    exact readsAs_of_depth_eq_zero (depth_declId id) fun _ => ofJson?_declId hd hdecl

end Program

theorem FunctionDecl.ofJson?_succ (n : Nat) (params returnType body : Json) :
    FunctionDecl.ofJson? (n + 1)
      (object [("params", params), ("return_type", returnType), ("body", body)]) = (do
        let params ← listOf? (fun _ => VarId.ofJson?) n params
        let returnType ← ValueType.ofJson? n returnType
        let body ← listOf? Stmt.ofJson? n body
        some { params, returnType, body }) := by
  simp [FunctionDecl.ofJson?, object, record?]

theorem AggregateDecl.ofJson?_succ (n : Nat) (kind fields : Json) :
    AggregateDecl.ofJson? (n + 1) (object [("aggregate_kind", kind), ("fields", fields)]) = (do
      let kind ← AggregateKind.ofJson? n kind
      let fields ← listOf? (fun _ => VarId.ofJson?) n fields
      some { kind, fields }) := by
  simp [AggregateDecl.ofJson?, object, record?]

theorem Declaration.ofJson?_succ (n : Nat) (id name parent locals children kind : Json) :
    Declaration.ofJson? (n + 1) (object [("id", id), ("name", name), ("parent", parent),
      ("locals", locals), ("children", children), ("kind", kind)]) = (do
        let id ← DeclId.ofJson? id
        let name ← name.str?
        let parent ← parentOfJson? (some parent)
        let locals ← listOf? (fun _ => VarId.ofJson?) n locals
        let children ← listOf? (fun _ => DeclId.ofJson?) n children
        let kind ← DeclKind.ofJson? n kind
        some { id, name, parent, locals, children, kind }) := by
  simp [Declaration.ofJson?, object, record?]

theorem Variable.ofJson?_succ (n : Nat) (id name ty owner kind : Json) :
    Variable.ofJson? (n + 1) (object [("id", id), ("name", name), ("ty", ty), ("owner", owner),
      ("kind", kind)]) = (do
        let id ← VarId.ofJson? id
        let name ← name.str?
        let ty ← ValueType.ofJson? n ty
        let owner ← DeclId.ofJson? owner
        let kind ← VarKind.ofJson? n kind
        some { id, name, ty, owner, kind }) := by
  simp [Variable.ofJson?, object, record?]

theorem Program.ofJson?_succ (n : Nat) (declarations vars : Json) :
    Program.ofJson? (n + 1) (object [("declarations", declarations), ("variables", vars)]) = (do
      let declarations ← listOf? Declaration.ofJson? n declarations
      let vars ← listOf? Variable.ofJson? n vars
      some ⟨declarations.toArray, vars.toArray⟩) := by
  simp [Program.ofJson?, object, record?]

namespace Program

variable {p : Program} (hp : p.check = .ok ()) (hd : p.declarations.size ≤ UInt32.size)
  (hv : p.vars.size ≤ UInt32.size)

include hp


theorem exists_var_of_mem_locals {decl : Declaration} (hdecl : decl ∈ p.declarations.toList)
    {x : VarId} (hx : x ∈ decl.locals) : ∃ var, p.var? x = some var := by
  have hc := checked_of_check hp
  obtain ⟨var, hvar, -⟩ := hc.local_owner (hc.decl?_of_mem hdecl) hx
  exact ⟨var, hvar⟩

include hv

theorem readsAs_aggregate {decl : Declaration} (hdecl : decl ∈ p.declarations.toList)
    {aggregate : AggregateDecl} (hk : decl.kind = .aggregate aggregate) :
    ReadsAs AggregateDecl.ofJson? aggregate.toJson aggregate := by
  have hc := checked_of_check hp
  have hfields := readsAs_varIds hv fun x hx =>
    exists_var_of_mem_locals hp hdecl (hc.fields_eq (hc.decl?_of_mem hdecl) hk ▸ hx)
  rw [AggregateDecl.toJson]
  refine readsAs_object rfl fun n => ?_
  rw [AggregateDecl.ofJson?_succ, AggregateKind.ofJson?_tag, hfields]
  simp only [Option.bind_eq_bind, Option.bind_some, ite_bind]
  exact if_congr (by simp) rfl rfl

include hd

theorem readsAs_function {decl : Declaration} (hdecl : decl ∈ p.declarations.toList)
    {function : FunctionDecl} (hk : decl.kind = .function function) :
    ReadsAs FunctionDecl.ofJson? function.toJson function := by
  have hc := checked_of_check hp
  have hparam := hc.params_prefix (hc.decl?_of_mem hdecl) hk
  have hbody := checkBody_of_check hp hdecl
  rw [checkBody, hk] at hbody
  simp only [then_eq_ok] at hbody
  have hparams := readsAs_varIds hv fun x hx =>
    exists_var_of_mem_locals hp hdecl (hparam.subset hx)
  have hret := ValueType.readsAs_toJson hd hbody.1
  have hstmts := readsAs_list (Stmt.readsAs_each hd hv hbody.2)
  rw [FunctionDecl.toJson, Stmt.toJsonList_eq_map]
  refine readsAs_object rfl fun n => ?_
  rw [FunctionDecl.ofJson?_succ, hparams, hret, ← Json.list, hstmts]
  simp only [Option.bind_eq_bind, ite_bind, ite_ite]
  exact if_congr (by simp) rfl rfl

theorem readsAs_kind {decl : Declaration} (hdecl : decl ∈ p.declarations.toList) :
    ReadsAs DeclKind.ofJson? decl.kind.toJson decl.kind := by
  cases hk : decl.kind with
  | function function =>
    refine readsAs_tagged rfl fun n => ?_
    have hread := readsAs_function hp hd hv hdecl hk n
    simp [DeclKind.ofJson?, hread, apply_ite]
  | aggregate aggregate =>
    refine readsAs_tagged rfl fun n => ?_
    have hread := readsAs_aggregate hp hv hdecl hk n
    simp [DeclKind.ofJson?, hread, apply_ite]

theorem readsAs_declaration {decl : Declaration} (hdecl : decl ∈ p.declarations.toList) :
    ReadsAs Declaration.ofJson? decl.toJson decl := by
  have hc := checked_of_check hp
  have hid := hc.decl?_of_mem hdecl
  have hparent : Declaration.parentOfJson? (some (.option DeclId.toJson decl.parent)) =
      some decl.parent := by
    cases hpar : decl.parent with
    | none => rfl
    | some parent =>
      obtain ⟨_, hparent, -⟩ := hc.child_of_parent hid hpar
      exact congrArg (Option.map some) (ofJson?_declId hd hparent)
  have hparent_depth : (Json.option DeclId.toJson decl.parent).depth = 0 := by
    cases decl.parent with
    | none => rfl
    | some parent => exact depth_declId parent
  have hlocals := readsAs_varIds hv fun x hx => (hc.local_owner hid hx).imp fun _ h => h.1
  have hchildren := readsAs_declIds hd fun child hchild =>
    (hc.parent_of_child hid hchild).imp fun _ h => h.1
  have hkind := readsAs_kind hp hd hv hdecl
  rw [Declaration.toJson]
  refine readsAs_object rfl fun n => ?_
  rw [Declaration.ofJson?_succ, ofJson?_declId hd hid, hparent, hlocals, hchildren, hkind]
  simp only [Option.bind_eq_bind, Option.bind_some, ite_bind, ite_ite, str?]
  exact if_congr (by simp [hparent_depth]) rfl rfl

theorem readsAs_variable {var : Variable} (hvar : var ∈ p.vars.toList) :
    ReadsAs Variable.ofJson? var.toJson var := by
  obtain ⟨hid, ⟨_, howner⟩, hchecked⟩ := checkVariable_of_check hp hvar
  have hty := ValueType.readsAs_toJson hd hchecked
  rw [Variable.toJson]
  refine readsAs_object rfl fun n => ?_
  rw [Variable.ofJson?_succ, ofJson?_varId hv hid, hty, ofJson?_declId hd howner,
    VarKind.ofJson?_tag]
  simp only [Option.bind_eq_bind, Option.bind_some, ite_bind, str?]
  exact if_congr (by simp) rfl rfl

theorem readsAs_toJson : ReadsAs ofJson? p.toJson p := by
  have hdecls := readsAs_list fun decl h => readsAs_declaration hp hd hv h
  have hvars := readsAs_list fun var h => readsAs_variable hp hd hv h
  rw [toJson]
  refine readsAs_object rfl fun n => ?_
  rw [ofJson?_succ, hdecls, hvars]
  simp only [Option.bind_eq_bind, ite_bind, ite_ite]
  exact if_congr (by simp) rfl rfl

end Program

/-! ## Numbers -/

namespace Json

@[simp] theorem integral_object {members : List (String × Json)} :
    (object members).Integral ↔ ∀ m ∈ members, m.2.Integral := by
  rw [object, Integral]
  induction members with
  | nil => simp [IntegralMembers]
  | cons m members ih => rw [List.map_cons, IntegralMembers, ih, List.forall_mem_cons]

@[simp] theorem integral_tagged {tag : String} {content : Json} :
    (tagged tag content).Integral ↔ content.Integral := by
  simp [tagged]

@[simp] theorem integral_list {α : Type} {write : α → Json} {values : List α} :
    (list write values).Integral ↔ ∀ a ∈ values, (write a).Integral := by
  rw [list, Integral]
  induction values with
  | nil => simp [IntegralItems]
  | cons a values ih => rw [List.map_cons, IntegralItems, ih, List.forall_mem_cons]

@[simp] theorem integral_int (value : Int) : (Json.int value).Integral := by
  simp [Integral]

@[simp] theorem integral_bool (value : Bool) : (Json.bool value).Integral := by
  simp [Integral]

@[simp] theorem integral_null : Json.null.Integral := by
  simp [Integral]

@[simp] theorem integral_str (text : String) : (Json.str text).Integral := by
  simp [Integral]

@[simp] theorem integral_declId (id : DeclId) : id.toJson.Integral := integral_int _

@[simp] theorem integral_varId (id : VarId) : id.toJson.Integral := integral_int _

end Json

mutual

@[simp] theorem ValueType.integral_toJson : ∀ ty : ValueType, ty.toJson.Integral
  | .unit | .int | .bool => by simp [toJson]
  | .instanceOf aggregate => by simp [toJson]
  | .function params ret => by
    rw [toJson, toJsonList_eq_map, ← Json.list]
    simpa [ValueType.integral_toJson ret] using ValueType.integral_each params

theorem ValueType.integral_each : ∀ types : List ValueType, ∀ ty ∈ types, ty.toJson.Integral
  | [] => by simp
  | ty :: types => List.forall_mem_cons.2
    ⟨ValueType.integral_toJson ty, ValueType.integral_each types⟩

end

mutual

@[simp] theorem Expr.integral_toJson : ∀ e : Expr, e.toJson.Integral
  | .int _ | .bool _ | .var _ | .this _ | .functionRef _ => by simp [toJson]
  | .binary _ lhs rhs => by
    simp [toJson, Expr.integral_toJson lhs, Expr.integral_toJson rhs]
  | .unary _ operand => by simp [toJson, Expr.integral_toJson operand]
  | .fieldGet base _ => by simp [toJson, Expr.integral_toJson base]
  | .call _ args | .new _ args => by
    rw [toJson, toJsonList_eq_map, ← Json.list]
    simpa using Expr.integral_each args
  | .methodCall e _ args | .callValue e args => by
    rw [toJson, toJsonList_eq_map, ← Json.list]
    simpa [Expr.integral_toJson e] using Expr.integral_each args

theorem Expr.integral_each : ∀ exprs : List Expr, ∀ e ∈ exprs, e.toJson.Integral
  | [] => by simp
  | e :: exprs => List.forall_mem_cons.2 ⟨Expr.integral_toJson e, Expr.integral_each exprs⟩

end

@[simp] theorem Place.integral_toJson (target : Place) : target.toJson.Integral := by
  cases target <;> simp [toJson]

mutual

@[simp] theorem Stmt.integral_toJson : ∀ stmt : Stmt, stmt.toJson.Integral
  | .letVar _ _ | .assign _ _ | .expr _ | .ret none | .ret (some _) => by
    simp [toJson, Json.option]
  | .branch _ thenBlock elseBlock => by
    rw [toJson, toJsonList_eq_map, toJsonList_eq_map, ← Json.list, ← Json.list]
    simpa using ⟨Stmt.integral_each thenBlock, Stmt.integral_each elseBlock⟩
  | .loop _ body => by
    rw [toJson, toJsonList_eq_map, ← Json.list]
    simpa using Stmt.integral_each body

theorem Stmt.integral_each : ∀ stmts : List Stmt, ∀ stmt ∈ stmts, stmt.toJson.Integral
  | [] => by simp
  | stmt :: stmts => List.forall_mem_cons.2
    ⟨Stmt.integral_toJson stmt, Stmt.integral_each stmts⟩

end

@[simp] theorem DeclKind.integral_toJson (kind : DeclKind) : kind.toJson.Integral := by
  cases kind with
  | function function =>
    rw [DeclKind.toJson, FunctionDecl.toJson, Stmt.toJsonList_eq_map, ← Json.list]
    simp
  | aggregate aggregate => simp [DeclKind.toJson, AggregateDecl.toJson]

@[simp] theorem Declaration.integral_toJson (decl : Declaration) : decl.toJson.Integral := by
  have hparent : (Json.option DeclId.toJson decl.parent).Integral := by
    cases decl.parent <;> simp [Json.option]
  simp [Declaration.toJson, hparent]

@[simp] theorem Variable.integral_toJson (var : Variable) : var.toJson.Integral := by
  simp [Variable.toJson]

namespace Program

/-- There is no number in a program but positions and literals. -/
theorem integral_toJson (p : Program) : p.toJson.Integral := by
  simp [toJson]

/-! ## Texts -/

/-- A program file is read back as the program that was written to it if the arrays and objects in
the file are nested at most 127 deep, and otherwise there is no program. A position is a word of
32 bits, so there are no more declarations and variables than that. -/
theorem parse_text {p : Program} (hp : p.check = .ok ())
    (hd : p.declarations.size ≤ UInt32.size) (hv : p.vars.size ≤ UInt32.size) :
    ∃ value, Json.parse? p.text = some value ∧
      (value.depth ≤ 127 → parse p.text = .ok p) ∧
      (127 < value.depth →
        ∃ error, parse p.text = .error error ∧ error.toDiagnostic.kind = .program) := by
  have hread : Json.parse? p.text = some p.toJson := Json.parse?_pretty p.integral_toJson
  have hvalue := readsAs_toJson hp hd hv maxNesting
  have hparse : parse p.text = ofJson p.toJson := by simp only [parse, hread]
  refine ⟨p.toJson, hread, fun (hle : _ ≤ maxNesting) => ?_,
    fun (hlt : maxNesting < _) => ⟨.malformedText, ?_, rfl⟩⟩
  · rw [if_pos hle] at hvalue
    simp only [hparse, ofJson, hvalue, hp]
  · rw [if_neg (Nat.not_le.2 hlt)] at hvalue
    simp only [hparse, ofJson, hvalue]

theorem parse_text_tally : ∃ value, Json.parse? tally.text = some value ∧ value.depth ≤ 127 ∧
    parse tally.text = .ok tally := by
  obtain ⟨value, hread, hok, -⟩ := parse_text tally_check (by decide) (by decide)
  obtain rfl : tally.toJson = value :=
    Option.some.inj ((Json.parse?_pretty tally.integral_toJson).symm.trans hread)
  have hdepth : tally.toJson.depth ≤ 127 := by decide +kernel
  exact ⟨_, hread, hdepth, hok hdepth⟩

end Program

end StaticChain

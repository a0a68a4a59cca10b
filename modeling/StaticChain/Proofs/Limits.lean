import StaticChain.Proofs.Evaluation

/-!
# The limits of evaluation

Evaluation has two limits: the depth of calls and the rounds of each loop. A limit that is raised changes
nothing where it was not met (`evaluate_within`), so what a function evaluates to is a notion of its own
(`Program.Evaluates`) with one result at most (`Evaluates.unique`).
-/

set_option linter.unusedSectionVars false

namespace StaticChain

/-- The first evaluation is the second one, as far as it goes before it stops for the reason given. -/
def Eval.Within {α : Type} (stop : Stop) (x y : Eval α) : Prop :=
  ∀ memory, x memory = y memory ∨ x memory = .error stop

/-- What calls do, as far as it goes. -/
def Handler.Within (stop : Stop) (call call' : Handler) : Prop :=
  ∀ id env args, (call id env args).Within stop (call' id env args)

namespace Eval.Within

variable {α β : Type} {stop : Stop} {x y : Eval α} {f g : α → Eval β}

theorem refl (x : Eval α) : x.Within stop x := fun _ => .inl rfl

theorem throw (y : Eval α) : Within stop (throw stop) y := fun _ => .inr rfl

theorem bind (hx : x.Within stop y) (hf : ∀ a, (f a).Within stop (g a)) :
    (x >>= f).Within stop (y >>= g) := by
  intro memory
  have hbind : ∀ (x : Eval α) (f : α → Eval β), (x >>= f) memory = x memory >>= fun r => f r.1 r.2 :=
    fun _ _ => rfl
  rw [hbind x, hbind y]
  rcases hx memory with h | h
  · rw [h]
    cases y memory with
    | error _ => exact .inl rfl
    | ok r => exact hf r.1 r.2
  · rw [h]
    exact .inr rfl

end Eval.Within

namespace Program

variable (p : Program) {stop : Stop} {call call' : Handler} (hcall : call.Within stop call') (env : Env)
include hcall

mutual

theorem evalExpr_within (e : Expr) : (p.evalExpr call env e).Within stop (p.evalExpr call' env e) := by
  cases e with
  | int | bool | var | this | functionRef =>
    rw [evalExpr, evalExpr]
    exact .refl _
  | binary op lhs rhs =>
    rw [evalExpr, evalExpr]
    refine .bind (evalExpr_within lhs) fun x => .bind (.refl _) fun x => ?_
    split
    · exact .refl _
    · exact .bind (evalExpr_within rhs) fun y => .refl _
  | unary op operand =>
    rw [evalExpr, evalExpr]
    exact .bind (evalExpr_within operand) fun x => .refl _
  | call function args =>
    rw [evalExpr, evalExpr]
    exact .bind (evalExprs_within args) fun vs => hcall _ _ vs
  | methodCall receiver method args =>
    rw [evalExpr, evalExpr]
    refine .bind (evalExpr_within receiver) fun x => .bind (.refl _) fun around => ?_
    exact .bind (evalExprs_within args) fun vs => hcall _ _ vs
  | new aggregate args =>
    rw [evalExpr, evalExpr]
    exact .bind (evalExprs_within args) fun vs => .refl _
  | fieldGet base field =>
    rw [evalExpr, evalExpr]
    exact .bind (evalExpr_within base) fun x => .refl _
  | callValue callee args =>
    rw [evalExpr, evalExpr]
    refine .bind (evalExpr_within callee) fun x => ?_
    split
    · exact .bind (evalExprs_within args) fun vs => hcall _ _ vs
    · exact .refl _

theorem evalExprs_within (es : List Expr) :
    (p.evalExprs call env es).Within stop (p.evalExprs call' env es) := by
  cases es with
  | nil =>
    rw [evalExprs, evalExprs]
    exact .refl _
  | cons e es =>
    rw [evalExprs, evalExprs]
    refine .bind (evalExpr_within e) fun x => .bind (.refl _) fun v => ?_
    exact .bind (evalExprs_within es) fun vs => .refl _

end

omit hcall in
/-- More rounds change nothing, unless all the rounds there were are made. -/
theorem evalLoop_within {condition condition' : Eval Int64} {body body' : Eval Flow}
    (hc : condition.Within stop condition') (hb : body.Within stop body') {rounds rounds' : Nat}
    (hrounds : rounds = rounds' ∨ stop = .unfinished ∧ rounds ≤ rounds') :
    (evalLoop condition body rounds).Within stop (evalLoop condition' body' rounds') := by
  induction rounds generalizing rounds' with
  | zero =>
    rcases hrounds with rfl | ⟨rfl, -⟩
    · exact .refl _
    · exact .throw _
  | succ rounds ih =>
    obtain ⟨rounds', rfl⟩ : ∃ n, rounds' = n + 1 := ⟨rounds' - 1, by omega⟩
    rw [evalLoop, evalLoop]
    refine .bind hc fun x => ?_
    split
    · exact .refl _
    · refine .bind hb fun flow => ?_
      cases flow with
      | next => exact ih (hrounds.imp Nat.succ.inj (And.imp_right Nat.le_of_succ_le_succ))
      | returned value => exact .refl _

variable {limit limit' : Nat} (hlimit : limit = limit' ∨ stop = .unfinished ∧ limit ≤ limit')
include hlimit

mutual

theorem evalStmt_within (s : Stmt) :
    (p.evalStmt call env limit s).Within stop (p.evalStmt call' env limit' s) := by
  cases s with
  | letVar x value =>
    rw [evalStmt, evalStmt]
    exact .bind (p.evalExpr_within hcall env value) fun _ => .refl _
  | assign place value =>
    cases place with
    | var x =>
      rw [evalStmt, evalStmt]
      exact .bind (p.evalExpr_within hcall env value) fun _ => .refl _
    | field base field =>
      rw [evalStmt, evalStmt]
      refine .bind (p.evalExpr_within hcall env base) fun _ => ?_
      refine .bind (.refl _) fun _ => .bind (.refl _) fun _ => ?_
      exact .bind (p.evalExpr_within hcall env value) fun _ => .refl _
  | expr value =>
    rw [evalStmt, evalStmt]
    exact .bind (p.evalExpr_within hcall env value) fun _ => .refl _
  | branch condition thenBlock elseBlock =>
    rw [evalStmt, evalStmt]
    refine .bind (p.evalExpr_within hcall env condition) fun _ => .bind (.refl _) fun x => ?_
    split
    · exact evalBlock_within elseBlock
    · exact evalBlock_within thenBlock
  | loop condition body =>
    rw [evalStmt, evalStmt]
    exact evalLoop_within (.bind (p.evalExpr_within hcall env condition) fun _ => .refl _)
      (evalBlock_within body) hlimit
  | ret value =>
    cases value with
    | none =>
      rw [evalStmt, evalStmt]
      exact .refl _
    | some value =>
      rw [evalStmt, evalStmt]
      exact .bind (p.evalExpr_within hcall env value) fun _ => .refl _

theorem evalBlock_within (block : List Stmt) :
    (p.evalBlock call env limit block).Within stop (p.evalBlock call' env limit' block) := by
  cases block with
  | nil =>
    rw [evalBlock, evalBlock]
    exact .refl _
  | cons s block =>
    rw [evalBlock, evalBlock]
    refine .bind (evalStmt_within s) fun flow => ?_
    cases flow with
    | next => exact evalBlock_within block
    | returned value => exact .refl _

end

end Program

namespace Program

variable (p : Program)

/-- More rounds and more depth change nothing, unless all that there was is used up. -/
theorem evalCall_within {stop : Stop} {limit limit' depth depth' : Nat}
    (hlimit : limit = limit' ∨ stop = .unfinished ∧ limit ≤ limit')
    (hdepth : depth = depth' ∨ stop = .depthExceeded ∧ depth ≤ depth') :
    Handler.Within stop (p.evalCall limit depth) (p.evalCall limit' depth') := by
  induction depth generalizing depth' with
  | zero =>
    intro id env args
    rcases hdepth with rfl | ⟨rfl, -⟩
    · exact .refl _
    · exact .throw _
  | succ depth ih =>
    intro id env args
    obtain ⟨depth', rfl⟩ : ∃ n, depth' = n + 1 := ⟨depth' - 1, by omega⟩
    have hcall := ih (hdepth.imp Nat.succ.inj (And.imp_right Nat.le_of_succ_le_succ))
    rw [evalCall, evalCall]
    split
    · exact .refl _
    · refine .bind (.refl _) fun record => ?_
      exact .bind (p.evalBlock_within hcall _ hlimit _) fun flow => .refl _

theorem evaluate_within {stop : Stop} {limit limit' depth depth' : Nat}
    (hlimit : limit = limit' ∨ stop = .unfinished ∧ limit ≤ limit')
    (hdepth : depth = depth' ∨ stop = .depthExceeded ∧ depth ≤ depth') (id : DeclId) (args : List Int64) :
    p.evaluate limit depth id args = p.evaluate limit' depth' id args ∨
      p.evaluate limit depth id args = .error stop := by
  have heq : ∀ limit depth, p.evaluate limit depth id args =
      (p.evalCall limit depth id [] (args.map .int) .empty).map Prod.fst := fun _ _ => rfl
  rw [heq, heq]
  rcases p.evalCall_within hlimit hdepth id [] (args.map .int) .empty with h | h
  · exact .inl (by rw [h])
  · exact .inr (by rw [h]; rfl)

/-- The result of a function at top level, with no more than so many activations at a time and with as many
rounds of its loops as it takes. -/
def Evaluates (depth : Nat) (id : DeclId) (args : List Int64) (result : Except Stop (Option Datum)) : Prop :=
  result ≠ .error .unfinished ∧ ∃ limit, p.evaluate limit depth id args = result

variable {p} {depth depth' : Nat} {id : DeclId} {args : List Int64} {r r' : Except Stop (Option Datum)}

theorem Evaluates.unique (h : p.Evaluates depth id args r) (h' : p.Evaluates depth id args r') : r = r' := by
  obtain ⟨hr, limit, rfl⟩ := h
  obtain ⟨hr', limit', rfl⟩ := h'
  rcases Nat.le_total limit limit' with hle | hle
  · exact (p.evaluate_within (.inr ⟨rfl, hle⟩) (.inl rfl) id args).resolve_right hr
  · exact ((p.evaluate_within (.inr ⟨rfl, hle⟩) (.inl rfl) id args).resolve_right hr').symm

/-- With more depth the result is the same, unless depth is what there was not enough of. -/
theorem Evaluates.mono (h : p.Evaluates depth id args r) (hr : r ≠ .error .depthExceeded)
    (hle : depth ≤ depth') : p.Evaluates depth' id args r := by
  obtain ⟨hu, limit, rfl⟩ := h
  exact ⟨hu, limit, ((p.evaluate_within (.inl rfl) (.inr ⟨rfl, hle⟩) id args).resolve_right hr).symm⟩

/-- With less depth the result is the same, or depth is what there is not enough of. -/
theorem Evaluates.of_le (h : p.Evaluates depth' id args r) (hle : depth ≤ depth') :
    p.Evaluates depth id args r ∨ p.Evaluates depth id args (.error .depthExceeded) := by
  obtain ⟨hr, limit, rfl⟩ := h
  rcases p.evaluate_within (.inl rfl) (.inr ⟨rfl, hle⟩) id args with h | h
  · exact .inl ⟨hr, limit, h⟩
  · exact .inr ⟨nofun, limit, h⟩

end Program

end StaticChain

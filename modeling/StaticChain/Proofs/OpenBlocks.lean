import StaticChain.Proofs.Activations
import StaticChain.Proofs.RoleAssignment

/-!
# Where an activation is in its code

The open blocks of an activation hold code that respects the roles of its function (`BlocksOk`).
Closing blocks keeps that so, and finds an instruction that respects roles (`nextOk_of_settle`). The one
place where an activation is in the middle of something is between the allocation of a carrier and the
store of its link: `Doing` says which carrier it is.
-/

namespace StaticChain

open Lir (ValueId LocalId FunctionId StructId AllocKind Inst Ty)
open Machine (Block BlockKind LoopCode Activation Position ObjectId)

variable {n : Nesting} {strict : Prop} {ret : ValueType} {Γ : Roles}

/-- The code of the loop that a block belongs to respects the roles. -/
def KindOk (n : Nesting) (strict : Prop) (ret : ValueType) (Γ : Roles) : BlockKind → Prop
  | .straight => True
  | .header loop => CodeOk n strict ret Γ loop.header ∧ CodeOk n strict ret Γ loop.body
  | .body loop => CodeOk n strict ret Γ loop.header ∧ CodeOk n strict ret Γ loop.body

/-- The open blocks respect the roles. -/
def BlocksOk (n : Nesting) (strict : Prop) (ret : ValueType) (Γ : Roles) (blocks : List Block) : Prop :=
  ∀ block ∈ blocks, CodeOk n strict ret Γ block.rest ∧ KindOk n strict ret Γ block.kind

theorem blocksOk_cons {block : Block} {blocks : List Block} :
    BlocksOk n strict ret Γ (block :: blocks) ↔
      (CodeOk n strict ret Γ block.rest ∧ KindOk n strict ret Γ block.kind) ∧
        BlocksOk n strict ret Γ blocks := by
  simp [BlocksOk]

namespace FunctionRoles

variable {id : DeclId} {function : FunctionDecl} {v : Vantage} {f : Lir.Function} {a : Activation}
  {args : List Machine.Value} {dest : Option ValueId}

/-- What a local holds when a function starts is an argument, and the local has the role of it. -/
theorem arg_of_entered (h : FunctionRoles n strict id function v f Γ) (he : a.Entered f args dest)
    {x : LocalId} {w : Machine.Value} (hw : a.local x = .ok w) :
    args[x.index]? = some w ∧ (n.calleeRoles id function)[x.index]? = some (Γ.ofLocal x) := by
  have harg := he.local_eq hw
  have hlt : x.index < (n.calleeRoles id function).length := by
    rw [← h.args_length, ← he.args_length]
    exact (List.getElem?_eq_some_iff.1 harg).1
  have hrole := List.getElem?_eq_getElem hlt
  exact ⟨harg, (h.args _ _ hrole).symm ▸ hrole⟩

/-- What an activation runs when it starts respects the roles. -/
theorem blocksOk (h : FunctionRoles n strict id function v f Γ) (he : a.Entered f args dest) :
    BlocksOk n strict function.returnType Γ a.blocks := by
  rw [he.blocks_eq]
  simpa [BlocksOk, KindOk] using h.code

end FunctionRoles

/-- After an instruction of the code, the rest is code of the same block. -/
def NextOk (n : Nesting) (strict : Prop) (ret : ValueType) (Γ : Roles) (inst : Inst)
    (blocks : List Block) : Prop :=
  ∃ rest kind outer, blocks = ⟨rest, kind⟩ :: outer ∧ CodeOk n strict ret Γ (inst :: rest) ∧
    KindOk n strict ret Γ kind ∧ BlocksOk n strict ret Γ outer

theorem nextOk_round {loop : LoopCode} {outer blocks : List Block} {inst : Inst}
    (hh : CodeOk n strict ret Γ loop.header) (hb : CodeOk n strict ret Γ loop.body)
    (ho : BlocksOk n strict ret Γ outer) (h : loop.round outer = .next inst blocks) :
    NextOk n strict ret Γ inst blocks := by
  obtain ⟨header, condition, body⟩ := loop
  unfold LoopCode.round at h
  split at h
  · rename_i hbody
    cases h
    simp only at hbody
    subst hbody
    exact ⟨_, _, _, rfl, hb, ⟨hh, hb⟩, ho⟩
  · rename_i hbody hheader
    cases h
    simp only at hbody hheader
    subst hbody hheader
    exact ⟨_, _, _, rfl, hh, ⟨hh, hb⟩, ho⟩
  · cases h

/-- The instruction that closing blocks leads to respects the roles. -/
theorem nextOk_of_settle {a : Activation} {blocks blocks' : List Block} {inst : Inst}
    (hb : BlocksOk n strict ret Γ blocks) (h : a.settle blocks = .next inst blocks') :
    NextOk n strict ret Γ inst blocks' := by
  induction blocks with
  | nil => cases h
  | cons block outer ih =>
    obtain ⟨rest, kind⟩ := block
    obtain ⟨⟨hrest, hkind⟩, houter⟩ := blocksOk_cons.1 hb
    cases rest with
    | cons inst' rest =>
      cases h
      exact ⟨_, _, _, rfl, hrest, hkind, houter⟩
    | nil =>
      cases kind with
      | straight => exact ih houter h
      | header loop =>
        simp only [Activation.settle] at h
        split at h
        · cases h
        · split at h
          · exact ih houter h
          · exact nextOk_round hkind.1 hkind.2 houter h
      | body loop =>
        obtain ⟨header, condition, body⟩ := loop
        simp only [Activation.settle] at h
        split at h
        · cases h
          exact ⟨_, _, _, rfl, hkind.1, hkind, houter⟩
        · split at h
          · cases h
          · split at h
            · exact ih houter h
            · exact nextOk_round hkind.1 hkind.2 houter h

/-- What the active activation is doing: it executes code, and then every link is `Settled`, or it is about
to store the link of a carrier that it has just allocated and that is `Fresh`. -/
inductive Doing (n : Nesting) (strict : Prop) (ret : ValueType) (Γ : Roles) (a : Activation)
    (Settled : Prop) (Fresh : StructId → AllocKind → ObjectId → Prop) : List Block → Prop
  | code {blocks : List Block} : Settled → BlocksOk n strict ret Γ blocks →
      Doing n strict ret Γ a Settled Fresh blocks
  | addressing {owner : DeclId} {l : Layout} {kind : AllocKind} {slot : Nat}
      {object addr link : ValueId} {o : ObjectId} {rest : List Inst} {blockKind : BlockKind}
      {outer : List Block} : LinkOk n strict Γ owner l kind slot object addr link →
      (∀ v, a.value object = .ok v → v = .object o) → Fresh l.struct kind o →
      BlocksOk n strict ret Γ (⟨rest, blockKind⟩ :: outer) →
      Doing n strict ret Γ a Settled Fresh
        (⟨.fieldAddr addr object l.struct slot :: .store addr link .ptr :: rest, blockKind⟩ :: outer)
  | linking {owner : DeclId} {l : Layout} {kind : AllocKind} {slot : Nat}
      {object addr link : ValueId} {o : ObjectId} {rest : List Inst} {blockKind : BlockKind}
      {outer : List Block} : LinkOk n strict Γ owner l kind slot object addr link →
      (∀ v, a.value addr = .ok v → v = .slot o slot) → Fresh l.struct kind o →
      BlocksOk n strict ret Γ (⟨rest, blockKind⟩ :: outer) →
      Doing n strict ret Γ a Settled Fresh (⟨.store addr link .ptr :: rest, blockKind⟩ :: outer)

/-- The instruction that the active activation takes next, and the blocks that are open then. -/
inductive Taking (n : Nesting) (strict : Prop) (ret : ValueType) (Γ : Roles) (a : Activation)
    (Settled : Prop) (Fresh : StructId → AllocKind → ObjectId → Prop) : Inst → List Block → Prop
  | code {inst : Inst} {blocks : List Block} : Settled → NextOk n strict ret Γ inst blocks →
      Taking n strict ret Γ a Settled Fresh inst blocks
  | addressing {owner : DeclId} {l : Layout} {kind : AllocKind} {slot : Nat}
      {object addr link : ValueId} {o : ObjectId} {rest : List Inst} {blockKind : BlockKind}
      {outer : List Block} : LinkOk n strict Γ owner l kind slot object addr link →
      (∀ v, a.value object = .ok v → v = .object o) → Fresh l.struct kind o →
      BlocksOk n strict ret Γ (⟨rest, blockKind⟩ :: outer) →
      Taking n strict ret Γ a Settled Fresh (.fieldAddr addr object l.struct slot)
        (⟨.store addr link .ptr :: rest, blockKind⟩ :: outer)
  | linking {owner : DeclId} {l : Layout} {kind : AllocKind} {slot : Nat}
      {object addr link : ValueId} {o : ObjectId} {rest : List Inst} {blockKind : BlockKind}
      {outer : List Block} : LinkOk n strict Γ owner l kind slot object addr link →
      (∀ v, a.value addr = .ok v → v = .slot o slot) → Fresh l.struct kind o →
      BlocksOk n strict ret Γ (⟨rest, blockKind⟩ :: outer) →
      Taking n strict ret Γ a Settled Fresh (.store addr link .ptr) (⟨rest, blockKind⟩ :: outer)

theorem Doing.taking {a : Activation} {Settled : Prop}
    {Fresh : StructId → AllocKind → ObjectId → Prop} {blocks blocks' : List Block} {inst : Inst}
    (h : Doing n strict ret Γ a Settled Fresh blocks) (hs : a.settle blocks = .next inst blocks') :
    Taking n strict ret Γ a Settled Fresh inst blocks' := by
  cases h with
  | code hset hb => exact .code hset (nextOk_of_settle hb hs)
  | addressing hl ho hf hb =>
    cases hs
    exact .addressing hl ho hf hb
  | linking hl ho hf hb =>
    cases hs
    exact .linking hl ho hf hb

end StaticChain

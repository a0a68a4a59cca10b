import StaticChain.Proofs.Availability

/-!
# Which chains there are

`Nesting.chainTo` finds a chain from a function to a carrier around it exactly when every carrier that the
chain goes through has a link (`chainTo_exact`). The carriers between the two are named once, by position in
the nesting alone (`Nesting.carriersBetween`). A carrier in between splits this list
(`Nesting.Built.carriersBetween_split`), and a chain is as long as the list, so it splits at the same place:
chains compose.

A frame starts the chains of its own function, an instance does not start the chains of anything. This is the
only difference between the two kinds of carrier: where a chain is split at an instance, the link of the
instance stands between the parts.
-/

namespace StaticChain

theorem forall₂_append_left {α β : Type} {R : α → β → Prop} {l₁ l₂ : List α} {r : List β}
    (h : List.Forall₂ R (l₁ ++ l₂) r) :
    ∃ r₁ r₂, List.Forall₂ R l₁ r₁ ∧ List.Forall₂ R l₂ r₂ ∧ r = r₁ ++ r₂ := by
  induction l₁ generalizing r with
  | nil => exact ⟨[], r, .nil, h, rfl⟩
  | cons a l₁ ih =>
    obtain ⟨b, rest, hab, hrest, rfl⟩ := List.forall₂_cons_left_iff.1 h
    obtain ⟨r₁, r₂, h₁, h₂, rfl⟩ := ih hrest
    exact ⟨b :: r₁, r₂, .cons hab h₁, h₂, rfl⟩

/-! ## Declarations on the way up -/

namespace Program.Checked

variable {p : Program} (hp : p.Checked)
include hp

/-- The way up from a declaration goes through whatever is around it. -/
theorem ancestors_eq_append {a id : DeclId} (h : a ∈ p.ancestors id) :
    p.ancestors id = (p.ancestors id).takeWhile (· != a) ++ a :: p.ancestors a := by
  induction id using hp.parent_induction with
  | root id hroot => simp [ancestors_of_root hroot] at h
  | nested id parent hpar ih =>
    rw [hp.ancestors_of_parent hpar] at h ⊢
    by_cases heq : parent = a
    · subst heq
      rw [List.takeWhile_cons_of_neg (by simp), List.nil_append]
    · have hup := (List.mem_cons.1 h).resolve_left fun h => heq h.symm
      rw [List.takeWhile_cons_of_pos (by simpa using heq), List.cons_append, ← ih hup]

theorem mem_ancestors_of_mem_takeWhile {a b id : DeclId} (h : a ∈ p.ancestors id)
    (hb : b ∈ (p.ancestors id).takeWhile (· != a)) : a ∈ p.ancestors b :=
  ((hp.mem_path_iff h).1 (List.mem_cons_of_mem _ hb)).2

/-- What lies below a declaration on the way up to it is what has the declaration around it. -/
theorem takeWhile_ancestors {a id : DeclId} (h : a ∈ p.ancestors id) :
    (p.ancestors id).takeWhile (· != a) =
      (p.ancestors id).filter fun b => (p.ancestors b).contains a := by
  have hbelow : ((p.ancestors id).takeWhile (· != a)).filter (fun b => (p.ancestors b).contains a) =
      (p.ancestors id).takeWhile (· != a) :=
    List.filter_eq_self.2 fun b hb => by simpa using hp.mem_ancestors_of_mem_takeWhile h hb
  have habove : (a :: p.ancestors a).filter (fun b => (p.ancestors b).contains a) = [] := by
    refine List.filter_eq_nil_iff.2 fun b hb hmem => ?_
    have hmem : a ∈ p.ancestors b := by simpa using hmem
    rcases List.mem_cons.1 hb with rfl | hb
    · exact hp.not_mem_ancestors_self _ hmem
    · exact hp.not_mem_ancestors_self _ (hp.ancestors_trans hmem hb)
  conv_rhs => rw [hp.ancestors_eq_append h, List.filter_append, hbelow, habove, List.append_nil]

end Program.Checked

namespace Nesting

/-! ## Carriers between two declarations -/

/-- The carriers strictly between two declarations, innermost first. -/
def carriersBetween (n : Nesting) (inner outer : DeclId) : List DeclId :=
  (n.program.ancestors inner).filter fun id =>
    n.captures.isCarrier n.program id && (n.program.ancestors id).contains outer

theorem mem_carriersBetween {n : Nesting} {inner outer id : DeclId} :
    id ∈ n.carriersBetween inner outer ↔ id ∈ n.program.ancestors inner ∧
      n.captures.isCarrier n.program id = true ∧ outer ∈ n.program.ancestors id := by
  simp [carriersBetween]

/-- The carriers that a chain goes through: the frame it starts at, if it starts at one, and all carriers up
to its target. -/
def through (n : Nesting) (useSite target : DeclId) : List DeclId :=
  (if n.captures.isFrameNeeded useSite then [useSite] else []) ++ n.carriersBetween useSite target

/-- The carrier of a declaration links to another one. -/
def HasLink (n : Nesting) (id : DeclId) : Prop :=
  ∃ l slot, n.layouts.layout? id = some l ∧ l.linkSlot? = some slot

/-- A step of a chain reads the link slot of a carrier: `parent` in a frame and `outer` in an instance. -/
def IsLink (n : Nesting) (hop : Chain.Hop) : Prop :=
  ∃ l, n.layouts.layout? hop.through = some l ∧ hop.struct = l.struct ∧
    ((n.program.isFunction hop.through = true ∧ hop.link = .parent ∧ l.parentSlot = some hop.slot) ∨
      (n.program.isAggregate hop.through = true ∧ hop.link = .outer ∧ l.outerSlot = some hop.slot))

/-- A context hands over a carrier, at the end of a chain or as the receiver of a method. -/
inductive Hands (n : Nesting) (useSite callee carrier : DeclId) : ContextArgument → Prop
  | chain {chain : Chain} : n.chainTo useSite carrier = .ok chain →
      Hands n useSite callee carrier (.chain chain)
  | receiver : n.program.isAggregate carrier = true → n.program.parent? callee = some carrier →
      Hands n useSite callee carrier .receiver

/-- A carrier links to the nearest carrier around it: whoever calls the function or makes the instance hands
over this one. -/
structure LinksTo (n : Nesting) (id next : DeclId) : Prop where
  nearest : ∃ parent, n.program.parent? id = some parent ∧
    n.captures.nearestCarrier? n.program parent = some next
  called : ∀ useSite context, n.callContext useSite id = .ok context → n.Hands useSite id next context
  made : n.program.isAggregate id = true → ∀ useSite context,
    n.constructionContext useSite id = .ok context → n.Hands useSite id next context

/-- What a chain from a function to another carrier is made of. -/
structure Walks (n : Nesting) (useSite target : DeclId) (chain : Chain) : Prop where
  useSite_eq : chain.useSite = useSite
  target_eq : chain.target = target
  carriers_eq : chain.carriers = n.carriersBetween useSite target ++ [target]
  start_eq : chain.start = if n.captures.isFrameNeeded useSite then .ownFrame else .incoming
  through_eq : chain.hops.map Chain.Hop.through = n.through useSite target
  isLink : ∀ hop ∈ chain.hops, n.IsLink hop
  /-- The carrier after a hop is the one that the link read by the hop holds. -/
  next : ∀ (i : Nat) (hop : Chain.Hop), chain.hops[i]? = some hop → ∃ next,
    chain.carriers[if n.captures.isFrameNeeded useSite then i else i + 1]? = some next ∧
    n.LinksTo hop.through next
  /-- Every carrier on the way splits the chain. -/
  split : ∀ between ∈ n.carriersBetween useSite target, ∃ below above,
    n.chainTo useSite between = .ok below ∧ n.chainTo between target = .ok above ∧
    ((n.program.isFunction between = true ∧ chain.hops = below.hops ++ above.hops) ∨
      ∃ hop, n.program.isAggregate between = true ∧ n.hop between = .ok hop ∧
        chain.hops = below.hops ++ hop :: above.hops)

/-! ## Links -/

variable {n : Nesting}

theorem exists_hop_iff {id : DeclId} : (∃ hop, n.hop id = .ok hop) ↔ n.HasLink id := by
  constructor
  · rintro ⟨hop, h⟩
    obtain ⟨l, hl, -, hslot⟩ := hop_eq_ok h
    exact ⟨l, hop.slot, hl, hslot⟩
  · rintro ⟨l, slot, hl, hslot⟩
    unfold Nesting.hop
    simp only [Layouts.getLayout_eq_ok.2 hl, bind, Except.bind]
    cases hps : l.parentSlot with
    | some i => exact ⟨_, rfl⟩
    | none =>
      have hos : l.outerSlot = some slot := by simpa [Layout.linkSlot?, hps] using hslot
      simp only [hos]
      exact ⟨_, rfl⟩

theorem hop_through {id : DeclId} {hop : Chain.Hop} (h : n.hop id = .ok hop) : hop.through = id ∧
    ∃ l, n.layouts.layout? id = some l ∧ hop.struct = l.struct ∧
      (hop.link = .parent ∧ l.parentSlot = some hop.slot ∨ hop.link = .outer ∧ l.outerSlot = some hop.slot) := by
  unfold Nesting.hop at h
  obtain ⟨l, hl, h⟩ := bind_eq_ok.1 h
  cases hps : l.parentSlot with
  | some slot =>
    simp only [hps] at h
    obtain rfl := pure_eq_ok.1 h
    exact ⟨rfl, l, Layouts.getLayout_eq_ok.1 hl, rfl, .inl ⟨rfl, hps⟩⟩
  | none =>
    cases hos : l.outerSlot with
    | some slot =>
      simp only [hps, hos] at h
      obtain rfl := pure_eq_ok.1 h
      exact ⟨rfl, l, Layouts.getLayout_eq_ok.1 hl, rfl, .inr ⟨rfl, hos⟩⟩
    | none => exact absurd (by simpa only [hps, hos] using h) throw_ne_ok

/-- The carriers above those that hops go through are the ones that the hops lead to. -/
theorem HopsTo.above_eq {start : Option DeclId} {target : DeclId} {hops : List Chain.Hop}
    (h : HopsTo n start hops target) :
    start :: hops.map (fun hop => n.above hop.through) =
      (hops.map Chain.Hop.through ++ [target]).map some := by
  induction h with
  | nil target => rfl
  | cons hhop _ ih =>
    obtain ⟨rfl, -⟩ := hop_through hhop
    simp only [List.map_cons, List.cons_append, ih]

theorem map_through_eq {ids : List DeclId} {hops : List Chain.Hop}
    (h : List.Forall₂ (fun id hop => n.hop id = .ok hop) ids hops) :
    hops.map Chain.Hop.through = ids := by
  induction h with
  | nil => rfl
  | cons hhop _ ih => rw [List.map_cons, (hop_through hhop).1, ih]

theorem ContextFor.hands {useSite id next : DeclId} {context : ContextArgument}
    (habove : n.above id = some next) (h : n.ContextFor useSite id context) :
    n.Hands useSite id next context := by
  cases h with
  | null hnone =>
    rw [habove] at hnone
    cases hnone
  | chain hsome hchain =>
    rw [habove] at hsome
    cases hsome
    exact .chain hchain

/-! ## The way from a function to a carrier -/

namespace Built

variable {policy : FramePolicy} (hn : n.Built policy)
include hn

theorem carriersBetween_eq_filter {inner outer : DeclId} (h : outer ∈ n.program.ancestors inner) :
    n.carriersBetween inner outer =
      ((n.program.ancestors inner).takeWhile (· != outer)).filter (n.captures.isCarrier n.program) := by
  rw [hn.checked.takeWhile_ancestors h, List.filter_filter]
  rfl

/-- What the search for a target finds. -/
theorem carriersTo_eq_some {useSite target : DeclId} {carriers : List DeclId}
    (ht : n.captures.isCarrier n.program target = true) :
    n.carriersTo target (n.program.ancestors useSite) = some carriers ↔
      target ∈ n.program.ancestors useSite ∧ carriers = n.carriersBetween useSite target ++ [target] := by
  simp only [carriersTo, Option.ite_none_right_eq_some, List.contains_iff_mem, List.mem_filter, ht,
    and_true, Option.some.injEq]
  refine and_congr_right fun hmem => ?_
  rw [takeWhile_filter_ne ht, ← hn.carriersBetween_eq_filter hmem]
  exact eq_comm

/-- A carrier between two declarations splits the carriers between them. -/
theorem carriersBetween_split {inner outer between : DeclId}
    (h : between ∈ n.carriersBetween inner outer) : n.carriersBetween inner outer =
      n.carriersBetween inner between ++ between :: n.carriersBetween between outer := by
  have hp := hn.checked
  obtain ⟨hmem, hc, hout⟩ := mem_carriersBetween.1 h
  -- Everything below the carrier has the outer declaration around it, like the carrier itself.
  have hbelow : ((n.program.ancestors inner).takeWhile (· != between)).filter (fun id =>
        n.captures.isCarrier n.program id && (n.program.ancestors id).contains outer) =
      n.carriersBetween inner between := by
    rw [hn.carriersBetween_eq_filter hmem]
    refine List.filter_congr fun id hid => ?_
    have : outer ∈ n.program.ancestors id :=
      hp.ancestors_trans hout (hp.mem_ancestors_of_mem_takeWhile hmem hid)
    simp [this]
  conv_lhs => rw [carriersBetween, hp.ancestors_eq_append hmem, List.filter_append, hbelow]
  rw [List.filter_cons_of_pos (by simp [hc, hout])]
  rfl

theorem isFunction_or_isAggregate {id : DeclId} (h : n.captures.isCarrier n.program id = true) :
    n.captures.isFrameNeeded id = true ∧ n.program.isFunction id = true ∨
      n.captures.isFrameNeeded id = false ∧ n.program.isAggregate id = true := by
  cases hf : n.captures.isFrameNeeded id with
  | true => exact .inl ⟨rfl, hn.isFunction_of_isFrameNeeded hf⟩
  | false => exact .inr ⟨rfl, by simpa [Captures.isCarrier, hf] using h⟩

/-- A chain to a carrier around the first target goes through that one if it is an instance too. -/
theorem through_split {useSite target between : DeclId}
    (h : between ∈ n.carriersBetween useSite target) : n.through useSite target =
      n.through useSite between ++
        ((if n.captures.isFrameNeeded between then [] else [between]) ++ n.through between target) := by
  unfold through
  rw [hn.carriersBetween_split h, List.append_assoc]
  cases n.captures.isFrameNeeded between <;> simp

/-! ## Links of an accepted program -/

theorem isLink_of_hop {id : DeclId} {hop : Chain.Hop} (h : n.hop id = .ok hop) : n.IsLink hop := by
  obtain ⟨rfl, l, hl, hstruct, hlink⟩ := hop_through h
  refine ⟨l, hl, hstruct, ?_⟩
  have hof := hn.layout_of hl
  generalize l.struct = struct at hof
  cases hof with
  | @frame decl function _ _ hd hk =>
    have hfun : n.program.isFunction hop.through = true :=
      Program.isFunction_iff.2 ⟨function, Program.function?_eq_some_iff.2 ⟨decl, hd, hk⟩⟩
    obtain ⟨hlink, hslot⟩ | ⟨-, hslot⟩ := hlink
    · exact .inl ⟨hfun, hlink, hslot⟩
    · cases hslot
  | @aggregate decl aggregate _ _ hd hk =>
    have hagg : n.program.isAggregate hop.through = true :=
      Program.isAggregate_iff.2 ⟨aggregate, Program.aggregate?_eq_some_iff.2 ⟨decl, hd, hk⟩⟩
    obtain ⟨-, hslot⟩ | ⟨hlink, hslot⟩ := hlink
    · cases hslot
    · exact .inr ⟨hagg, hlink, hslot⟩

/-- The carrier above a carrier is what everyone hands over to be linked to. -/
theorem linksTo_of_above {id next : DeclId} (habove : n.above id = some next)
    (hlink : n.HasLink id) : n.LinksTo id next := by
  obtain ⟨parent, hpar, hnear⟩ := Option.bind_eq_some_iff.1 habove
  refine ⟨⟨parent, hpar, hnear⟩, fun useSite context h => ?_, fun hagg useSite context h => ?_⟩
  · unfold callContext at h
    obtain ⟨function, -, h⟩ := bind_eq_ok.1 h
    simp only [hpar] at h
    split at h
    · rename_i hagg
      cases h
      have hself : n.captures.nearestCarrier? n.program parent = some parent :=
        nearestCarrier?_self (by simp [Captures.isCarrier, hagg])
      obtain rfl : parent = next := Option.some.inj (hself.symm.trans hnear)
      exact .receiver hagg hpar
    · exact (contextFor_of_contextBelow hpar h).hands habove
  · obtain ⟨l, hl, ⟨-, hnone⟩ | ⟨-, h⟩⟩ := constructionContext_eq_ok h
    · obtain ⟨l', slot, hl', hslot⟩ := hlink
      obtain rfl : l = l' := Option.some.inj (hl.symm.trans hl')
      rw [(hn.layout_of hl).linkSlot_of_isAggregate hagg, hnone] at hslot
      cases hslot
    · exact h.hands habove

/-! ## Chains -/

omit hn in
/-- A function is at the end of a chain from itself when it has a frame. -/
theorem chainTo_self {id : DeclId} : (∃ chain, n.chainTo id id = .ok chain) ↔
    n.captures.isCarrier n.program id = true ∧ n.captures.isFrameNeeded id = true := by
  unfold chainTo
  by_cases hc : n.captures.isCarrier n.program id = true
  swap
  · simp only [hc, Bool.not_false, if_true]
    exact iff_of_false (fun ⟨_, h⟩ => throw_bind_ne_ok h) nofun
  by_cases hf : n.captures.isFrameNeeded id = true
  · simp only [hc, hf, Bool.not_true, Bool.false_eq_true, if_false, if_true, and_self, iff_true]
    exact ⟨_, rfl⟩
  · simp only [hc, hf, Bool.not_true, Bool.not_false, Bool.false_eq_true, if_false, if_true, and_false]
    exact iff_of_false (fun ⟨_, h⟩ => throw_bind_ne_ok h) nofun

/-- A chain to another carrier is found when its hops are. -/
theorem chainTo_eq_ok_iff {useSite target : DeclId} {chain : Chain} (hne : target ≠ useSite) :
    n.chainTo useSite target = .ok chain ↔ n.captures.isCarrier n.program target = true ∧
      target ∈ n.program.ancestors useSite ∧ ∃ hops,
      List.Forall₂ (fun id hop => n.hop id = .ok hop) (n.through useSite target) hops ∧
      chain = {
        useSite
        target
        start := if n.captures.isFrameNeeded useSite then .ownFrame else .incoming
        carriers := n.carriersBetween useSite target ++ [target]
        hops } := by
  unfold chainTo
  by_cases hc : n.captures.isCarrier n.program target = true
  swap
  · simp only [hc, Bool.not_false, if_true]
    exact iff_of_false throw_bind_ne_ok nofun
  simp only [hc, Bool.not_true, Bool.false_eq_true, if_false, if_neg hne, true_and]
  by_cases hmem : target ∈ n.program.ancestors useSite
  swap
  · have hnone : n.carriersTo target (n.program.ancestors useSite) = none := by
      refine Option.eq_none_iff_forall_ne_some.2 fun carriers h => hmem ?_
      exact ((hn.carriersTo_eq_some hc).1 h).1
    simp only [hnone, hmem, false_and, iff_false]
    exact throw_ne_ok
  simp only [(hn.carriersTo_eq_some hc).2 ⟨hmem, rfl⟩, List.dropLast_concat, hmem, true_and]
  rw [bind_eq_ok]
  refine exists_congr fun hops => and_congr mapM_eq_ok ?_
  rw [pure_eq_ok]
  exact eq_comm

theorem exists_chainTo_iff {useSite target : DeclId} (hne : target ≠ useSite) :
    (∃ chain, n.chainTo useSite target = .ok chain) ↔ n.captures.isCarrier n.program target = true ∧
      target ∈ n.program.ancestors useSite ∧ ∀ id ∈ n.through useSite target, n.HasLink id := by
  have hhops : (∃ hops, List.Forall₂ (fun id hop => n.hop id = .ok hop) (n.through useSite target) hops) ↔
      ∀ id ∈ n.through useSite target, n.HasLink id := by
    constructor
    · rintro ⟨hops, hhops⟩ id hid
      obtain ⟨hop, -, hhop⟩ := exists_of_mapM_eq_ok (mapM_eq_ok.2 hhops) hid
      exact exists_hop_iff.1 ⟨hop, hhop⟩
    · intro hall
      obtain ⟨hops, hhops⟩ := exists_mapM_eq_ok fun id hid => exists_hop_iff.2 (hall id hid)
      exact ⟨hops, mapM_eq_ok.1 hhops⟩
  simp only [hn.chainTo_eq_ok_iff hne]
  rw [← hhops]
  constructor
  · rintro ⟨chain, hc, hmem, hops, hhops, -⟩
    exact ⟨hc, hmem, hops, hhops⟩
  · rintro ⟨hc, hmem, hops, hhops⟩
    exact ⟨_, hc, hmem, hops, hhops, rfl⟩

/-- The links that a chain reads hold the carriers that it leads over, one after another. -/
theorem above_of_hop {useSite target : DeclId} {chain : Chain} (hne : target ≠ useSite)
    (h : n.chainTo useSite target = .ok chain) {i : Nat} {hop : Chain.Hop}
    (hi : chain.hops[i]? = some hop) :
    ∃ next, chain.carriers[if n.captures.isFrameNeeded useSite then i else i + 1]? = some next ∧
      n.above hop.through = some next := by
  have hto := (hn.hopsTo_of_chainTo h).above_eq
  obtain ⟨-, -, hops, hhops, rfl⟩ := (hn.chainTo_eq_ok_iff hne).1 h
  -- Both sides list, after the start, what the hops lead to.
  have htail := congrArg (·[i + 1]?) hto
  simp only [List.getElem?_cons_succ, List.getElem?_map, hi, Option.map_some, map_through_eq hhops,
    through] at htail
  cases hf : n.captures.isFrameNeeded useSite with
  | true =>
    simp only [hf, if_true, List.cons_append, List.getElem?_cons_succ] at htail ⊢
    obtain ⟨next, hnext, heq⟩ := Option.map_eq_some_iff.1 htail.symm
    exact ⟨next, hnext, heq.symm⟩
  | false =>
    simp only [hf, Bool.false_eq_true, if_false, List.nil_append] at htail ⊢
    obtain ⟨next, hnext, heq⟩ := Option.map_eq_some_iff.1 htail.symm
    exact ⟨next, hnext, heq.symm⟩

/-- A carrier on the way has chains to it and from it, which together are the whole. -/
theorem chainTo_split {useSite target between : DeclId} {chain : Chain} (hne : target ≠ useSite)
    (h : n.chainTo useSite target = .ok chain) (hb : between ∈ n.carriersBetween useSite target) :
    ∃ below above, n.chainTo useSite between = .ok below ∧ n.chainTo between target = .ok above ∧
      ((n.program.isFunction between = true ∧ chain.hops = below.hops ++ above.hops) ∨
        ∃ hop, n.program.isAggregate between = true ∧ n.hop between = .ok hop ∧
          chain.hops = below.hops ++ hop :: above.hops) := by
  obtain ⟨hmem, hc, hout⟩ := mem_carriersBetween.1 hb
  have hbelow : between ≠ useSite := fun heq => hn.checked.not_mem_ancestors_self _ (heq ▸ hmem)
  have habove : target ≠ between := fun heq => hn.checked.not_mem_ancestors_self _ (heq ▸ hout)
  obtain ⟨ht, -, hops, hhops, rfl⟩ := (hn.chainTo_eq_ok_iff hne).1 h
  rw [hn.through_split hb] at hhops
  obtain ⟨first, others, hfirst, hothers, rfl⟩ := forall₂_append_left hhops
  obtain ⟨own, last, hown, hlast, rfl⟩ := forall₂_append_left hothers
  refine ⟨_, _, (hn.chainTo_eq_ok_iff hbelow).2 ⟨hc, hmem, first, hfirst, rfl⟩,
    (hn.chainTo_eq_ok_iff habove).2 ⟨ht, hout, last, hlast, rfl⟩, ?_⟩
  rcases hn.isFunction_or_isAggregate hc with ⟨hf, hfun⟩ | ⟨hf, hagg⟩
  · rw [hf, if_pos rfl] at hown
    cases hown
    exact .inl ⟨hfun, rfl⟩
  · rw [hf, if_neg nofun] at hown
    obtain ⟨hop, rest, hhop, hrest, rfl⟩ := List.forall₂_cons_left_iff.1 hown
    cases hrest
    exact .inr ⟨hop, hagg, hhop, rfl⟩

theorem walks_of_chainTo {useSite target : DeclId} {chain : Chain} (hne : target ≠ useSite)
    (h : n.chainTo useSite target = .ok chain) : n.Walks useSite target chain := by
  obtain ⟨-, -, hops, hhops, heq⟩ := (hn.chainTo_eq_ok_iff hne).1 h
  have hlink : ∀ hop ∈ chain.hops, n.hop hop.through = .ok hop := by
    intro hop hmem
    rw [heq] at hmem
    obtain ⟨id, -, hhop⟩ := exists_of_forall₂ hhops hmem
    rwa [(hop_through hhop).1]
  exact {
    useSite_eq := by rw [heq]
    target_eq := by rw [heq]
    carriers_eq := by rw [heq]
    start_eq := by rw [heq]
    through_eq := by rw [heq]; exact map_through_eq hhops
    isLink := fun hop hmem => hn.isLink_of_hop (hlink hop hmem)
    next := by
      intro i hop hi
      obtain ⟨next, hnext, habove⟩ := hn.above_of_hop hne h hi
      have hhop := hlink hop (List.mem_of_getElem? hi)
      exact ⟨next, hnext, hn.linksTo_of_above habove (exists_hop_iff.1 ⟨hop, hhop⟩)⟩
    split := fun between hb => hn.chainTo_split hne h hb }

end Built

/-- A function reaches a carrier exactly when this is its own frame, or is around it and every carrier that
the way goes through has a link. The way is the list of the carriers up to it: it starts at the frame of the
function if there is one, reads the link of each carrier but the last, finds there the nearest carrier around
it, which whoever called the function or made the instance handed over, and is put together from the ways to
and from each carrier on it. -/
theorem chainTo_exact {p : Program} (hp : p.check = .ok ()) {policy : FramePolicy} {n : Nesting}
    (hn : Nesting.of p policy = .ok n) (useSite target : DeclId) :
    ((∃ chain, n.chainTo useSite target = .ok chain) ↔ n.captures.isCarrier p target = true ∧
      ((target = useSite ∧ n.captures.isFrameNeeded useSite = true) ∨
        (target ∈ p.ancestors useSite ∧ (n.captures.isFrameNeeded useSite = true → n.HasLink useSite) ∧
          ∀ between ∈ n.carriersBetween useSite target, n.HasLink between))) ∧
    ∀ chain, n.chainTo useSite target = .ok chain → target ≠ useSite → n.Walks useSite target chain := by
  obtain ⟨rfl, hbuilt⟩ := built_of_eq_ok (Program.checked_of_check hp) hn
  refine ⟨?_, fun chain h hne => hbuilt.walks_of_chainTo hne h⟩
  by_cases hne : target = useSite
  · subst hne
    rw [Built.chainTo_self]
    simp [hbuilt.checked.not_mem_ancestors_self]
  · rw [hbuilt.exists_chainTo_iff hne]
    simp only [hne, false_and, false_or, through, List.forall_mem_append, and_congr_right_iff]
    intro _ _
    cases n.captures.isFrameNeeded useSite <;> simp

/-- An instance made in a function that has a frame in another one, with a method that reads from both. -/
def mixedChain : Program where
  declarations := #[
    ⟨⟨0⟩, "outer", none, [⟨0⟩], [⟨1⟩], .function {
      params := [⟨0⟩]
      returnType := .int
      body := [.ret (some (.call ⟨1⟩ [.int 2]))] }⟩,
    ⟨⟨1⟩, "inner", some ⟨0⟩, [⟨1⟩], [⟨2⟩], .function {
      params := [⟨1⟩]
      returnType := .int
      body := [.ret (some (.methodCall (.new ⟨2⟩ []) ⟨3⟩ []))] }⟩,
    ⟨⟨2⟩, "Adder", some ⟨1⟩, [], [⟨3⟩], .aggregate ⟨.classType, []⟩⟩,
    ⟨⟨3⟩, "sum", some ⟨2⟩, [], [], .function {
      params := []
      returnType := .int
      body := [.ret (some (.binary .add (.var ⟨0⟩) (.var ⟨1⟩)))] }⟩]
  vars := #[⟨⟨0⟩, "a", .int, ⟨0⟩, .param⟩, ⟨⟨1⟩, "b", .int, ⟨1⟩, .param⟩]

/-- The method reaches the outer frame over the `outer` link of its receiver and the `parent` link of the
inner frame. -/
theorem chainTo_exact_mixedChain : mixedChain.check = .ok () ∧ ∃ n chain,
    Nesting.of mixedChain .escapeAnalysis = .ok n ∧ n.chainTo ⟨3⟩ ⟨0⟩ = .ok chain ∧
    chain.start = .incoming ∧ chain.carriers = [⟨2⟩, ⟨1⟩, ⟨0⟩] ∧
    chain.hops.map Chain.Hop.through = [⟨2⟩, ⟨1⟩] := by
  have hp : mixedChain.check = .ok () := by rfl
  obtain ⟨n, hn⟩ := exists_of_isOk
    (show (Nesting.of mixedChain .escapeAnalysis).isOk = true by decide +kernel)
  have htables : (Nesting.of mixedChain .escapeAnalysis).toOption.any (fun n =>
      n.captures.isCarrier mixedChain ⟨0⟩ && !n.captures.isFrameNeeded ⟨3⟩ &&
      n.carriersBetween ⟨3⟩ ⟨0⟩ == [⟨2⟩, ⟨1⟩] &&
      [⟨2⟩, ⟨1⟩].all fun id => (n.layouts.layout? id).any (·.linkSlot?.isSome)) = true := by
    decide +kernel
  simp only [hn, Except.toOption, Option.any_some, Bool.and_eq_true, Bool.not_eq_true', beq_iff_eq,
    List.all_eq_true, Option.any_eq_true, Option.isSome_iff_exists] at htables
  obtain ⟨⟨⟨hcarrier, hframe⟩, hbetween⟩, hlinks⟩ := htables
  obtain ⟨hiff, hwalks⟩ := chainTo_exact hp hn ⟨3⟩ ⟨0⟩
  obtain ⟨chain, hchain⟩ := hiff.2 ⟨hcarrier, .inr ⟨by decide, fun h => (by simp [hframe] at h), fun id hid => by
    obtain ⟨l, hl, slot, hslot⟩ := hlinks id (hbetween ▸ hid)
    exact ⟨l, slot, hl, hslot⟩⟩⟩
  have hw := hwalks chain hchain (by decide)
  refine ⟨hp, n, chain, hn, hchain, ?_, ?_, ?_⟩
  · simp [hw.start_eq, hframe]
  · simp [hw.carriers_eq, hbetween]
  · simp [hw.through_eq, through, hframe, hbetween]

end Nesting

end StaticChain

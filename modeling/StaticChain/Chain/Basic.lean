import StaticChain.Lir.Basic

/-!
# Chains

Code reaches the carrier of an enclosing declaration by following links from carrier to carrier. A
`Chain` says where to start and which links to follow. Frames link to the next carrier by their
`parent` slot, instances by their `outer` slot.
-/

namespace StaticChain

namespace Chain

/-- Where a chain starts. -/
inductive Start where
  /-- At the frame of the activation itself. -/
  | ownFrame
  /-- At the context that the activation was given. -/
  | incoming
deriving DecidableEq, Inhabited, Repr

def Start.name : Start → String
  | .ownFrame => "OwnFrame"
  | .incoming => "Incoming"

/-- The two kinds of link. -/
inductive Link where
  | parent
  | outer
deriving DecidableEq, Inhabited, Repr

/-- One step of a chain: reads the link slot of the carrier of `through`. -/
structure Hop where
  through : DeclId
  link : Link
  struct : Lir.StructId
  slot : Nat
deriving DecidableEq, Inhabited, Repr

end Chain

/-- The way from a use site to the carrier of `target`. -/
structure Chain where
  useSite : DeclId
  target : DeclId
  start : Chain.Start
  /-- The carriers above the use site, innermost first, up to the target. -/
  carriers : List DeclId
  hops : List Chain.Hop
deriving DecidableEq, Inhabited, Repr

end StaticChain

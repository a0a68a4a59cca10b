import StaticChain.Machine.Fault

/-!
# The object store

A `Store` holds the frames and instances of a running program. Objects are numbered in the order of
their allocation and never moved. A released object stays where it is and is no longer live; reading
or writing it is a fault.

Numbers are not bounded here. Where they are kept in 32 bits, this is the store of runs with fewer than 2 ^ 32
objects.
-/

namespace StaticChain.Machine

open Lir (StructId AllocKind)

structure Object where
  struct : StructId
  kind : AllocKind
  /-- The values of the slots, as far as they are set. -/
  slots : Array (Option Value)
  live : Bool
deriving DecidableEq, Inhabited, Repr

/-- How many objects were allocated and released. -/
structure Store.Stats where
  heap : Nat
  stack : Nat
  released : Nat
deriving DecidableEq, Inhabited, Repr

structure Store where
  objects : Array Object
  stats : Store.Stats
deriving DecidableEq, Inhabited, Repr

namespace Store

def empty : Store := ⟨#[], ⟨0, 0, 0⟩⟩

def Stats.allocated (stats : Stats) : AllocKind → Stats
  | .heap => { stats with heap := stats.heap + 1 }
  | .stack => { stats with stack := stats.stack + 1 }

/-- The number of the next object. -/
def next (s : Store) : ObjectId := ⟨s.objects.size⟩

/-- Adds an object with no slot set. Its number is `s.next`. -/
def allocate (s : Store) (struct : StructId) (kind : AllocKind) (slots : Nat) : Store where
  objects := s.objects.push { struct, kind, slots := Array.replicate slots none, live := true }
  stats := s.stats.allocated kind

def isLive (s : Store) (id : ObjectId) : Bool :=
  s.objects[id.index]?.any Object.live

/-- Ends the life of an object, if it lives. -/
def release (s : Store) (id : ObjectId) : Store :=
  if s.isLive id then
    { objects := s.objects.modify id.index fun object => { object with live := false }
      stats := { s.stats with released := s.stats.released + 1 } }
  else s

def releaseAll (s : Store) (ids : List ObjectId) : Store := ids.foldl release s

/-- A live object. -/
def object (s : Store) (id : ObjectId) : Except Fault Object :=
  match s.objects[id.index]? with
  | none => .error (.unallocated id)
  | some object => if object.live then .ok object else .error (.dangling id object.struct)

def read (s : Store) (id : ObjectId) (slot : Nat) : Except Fault Value := do
  let object ← s.object id
  match object.slots[slot]? with
  | some (some value) => return value
  | some none => throw (.slotUnset slot id object.struct)
  | none => throw (.slotOutOfRange slot id)

/-- Fails where there is no slot to be written. -/
def checkSlot (s : Store) (id : ObjectId) (slot : Nat) : Except Fault Unit := do
  let object ← s.object id
  if slot < object.slots.size then return else throw (.slotOutOfRange slot id)

/-- Sets a slot; one that does not exist is left alone. -/
def set (s : Store) (id : ObjectId) (slot : Nat) (value : Value) : Store :=
  { s with objects := s.objects.modify id.index fun object =>
      { object with slots := object.slots.setIfInBounds slot (some value) } }

def write (s : Store) (id : ObjectId) (slot : Nat) (value : Value) : Except Fault Store := do
  s.checkSlot id slot
  return s.set id slot value

end Store

end StaticChain.Machine

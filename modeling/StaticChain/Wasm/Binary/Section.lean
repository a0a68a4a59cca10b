import StaticChain.Wasm.Binary.Writer

/-!
# Sections

A binary is a header and a sequence of sections, each a number with a content. The header tells a
module from a component, which is a bundle of modules and other components. `Framing.of` takes a
binary apart without looking at what the parts of a section mean, and `Framing.modules` goes into
the bundled ones. Where the binary ends badly, the sections before that place are still found.
-/

namespace StaticChain.Wasm

/-- What reads a part from the front of some bytes. -/
abbrev Get := StateT Bytes Option

namespace Get

def byte : Get UInt8
  | [] => none
  | b :: rest => some (b, rest)

def u32 : Get Nat := Leb128.readUnsigned 32

def u64 : Get Nat := Leb128.readUnsigned 64

/-- The next `n` bytes. -/
def take (n : Nat) : Get Bytes := fun bytes =>
  let front := bytes.take n
  if front.length = n then some (front, bytes.drop n) else none

/-- The same part `n` times. -/
def times (part : Get α) : Nat → Get (List α)
  | 0 => return []
  | n + 1 => do
    let first ← part
    let rest ← times part n
    return first :: rest

/-- Parts with their number before them. -/
def vector (part : Get α) : Get (List α) := do
  times part (← u32)

/-- Bytes with their number before them. -/
def sized : Get Bytes := do
  take (← u32)

/-- Bytes with their number before them. Where there are fewer, all there are. -/
def bundled : Get Bytes := do
  let size ← u32
  fun bytes => some (bytes.take size, bytes.drop size)

/-- The longest name. -/
def maxName : Nat := 100000

def name : Get String := do
  let bytes ← sized
  if bytes.length ≤ maxName then StateT.lift (String.fromUTF8? ⟨bytes.toArray⟩) else failure

/-- Reads a part that is all there is. -/
def all (part : Get α) (bytes : Bytes) : Option α :=
  match part bytes with
  | some (a, []) => some a
  | _ => none

end Get

/-- What a binary is. -/
inductive Encoding where
  | module | component
deriving DecidableEq, Inhabited, Repr

namespace Encoding

/-- The magic number and the version. -/
def header : Encoding → Bytes
  | .module => Wasm.header
  | .component => magic ++ [0x0d, 0x00, 0x01, 0x00]

/-- What the header of a binary says. -/
def of? (bytes : Bytes) : Option Encoding :=
  [.module, .component].find? fun e => e.header.isPrefixOf bytes

end Encoding

structure Section where
  id : Nat
  content : Bytes
deriving DecidableEq, Inhabited, Repr

namespace Section

/-- The order in which the sections of modules stand. -/
def order : List Nat := [1, 2, 3, 4, 5, 13, 6, 7, 8, 9, 12, 10, 11]

/-- The place of a section in that order; those that may stand anywhere have none. -/
def rank? (s : Section) : Encoding → Option Nat
  | .module => (order.findIdx? (· == s.id)).map (· + 1)
  | .component => none

/-- The number of parts that a section declares. -/
def count? (s : Section) : Option Nat := (Get.u32 s.content).map Prod.fst

/-- Whether the content is a binary in a bundle. -/
def isBundled (encoding : Encoding) (id : Nat) : Bool :=
  encoding == .component && (id == 1 || id == 4)

/-- The function that a component starts with: its arguments and the number of its results. -/
def componentStart : Get (Nat × List Nat × Nat) := do
  return (← Get.u32, ← Get.vector Get.u32, ← Get.u32)

/-- Whether the content can be split into parts: a custom section has a name, some sections of a
module hold one number, the bodies of functions have sizes, and most others start with a count. -/
def isFramed (s : Section) (encoding : Encoding) : Bool :=
  match encoding, s.id with
  | _, 0 => (Get.name s.content).isSome
  | .module, 8 => (Get.u32.all s.content).isSome
  | .module, 12 => (Get.u32.all s.content).isSome
  | .module, 10 => ((Get.vector Get.sized).all s.content).isSome
  | .module, _ => (s.rank? encoding).isNone || s.count?.isSome
  | .component, 9 => (componentStart.all s.content).isSome
  | .component, id => isBundled encoding id || id > 11 || s.count?.isSome

/-- The next section. It does not start like a binary. A binary in a bundle may be cut off, unless
the bundle is itself `inner` to another. -/
def get (encoding : Encoding) (inner : Bool) : Get Section := do
  if magic.isPrefixOf (← StateT.get) then failure
  let id ← Get.byte
  let content ← if isBundled encoding id.toNat && !inner then Get.bundled else Get.sized
  let found := { id := id.toNat, content }
  if id < 128 && found.isFramed encoding then return found else failure

end Section

/-- The sections of a binary, and whether they are all of it. -/
structure Framing where
  encoding : Encoding
  sections : List Section
  complete : Bool
deriving DecidableEq, Inhabited, Repr

namespace Framing

/-- The sections that follow one of rank `last`. -/
def scan (encoding : Encoding) (inner : Bool) : (fuel last : Nat) → Bytes → Framing
  | _, _, [] => ⟨encoding, [], true⟩
  | 0, _, _ => ⟨encoding, [], false⟩
  | fuel + 1, last, bytes =>
    match Section.get encoding inner bytes with
    | none => ⟨encoding, [], false⟩
    | some (found, rest) =>
      let rank := found.rank? encoding
      if last < rank.getD (last + 1) then
        let next := scan encoding inner fuel (rank.getD last) rest
        { next with sections := found :: next.sections }
      else ⟨encoding, [], false⟩

def section? (f : Framing) (id : Nat) : Option Section :=
  f.sections.find? (·.id == id)

/-- The number of parts of a section; a section that is missing has none. -/
def count (f : Framing) (id : Nat) : Nat :=
  ((f.section? id).bind Section.count?).getD 0

/-- In a module, as many bodies as functions, and as many data segments as were announced. -/
def countsAgree (f : Framing) : Bool :=
  f.encoding == .component ||
    f.count 3 == f.count 10 && ((f.section? 12).isNone || f.count 12 == f.count 11)

/-- Takes a binary apart, which may be `inner` to a bundle. -/
def of (bytes : Bytes) (inner : Bool := false) : Framing :=
  match Encoding.of? bytes with
  | none => ⟨.module, [], false⟩
  | some encoding =>
    let found := scan encoding inner bytes.length 0 (bytes.drop encoding.header.length)
    { found with complete := found.complete && found.countsAgree }

/-- Two sequences of sections; the second counts only if the first is complete. -/
def append (first next : Framing) : Framing :=
  if first.complete then { next with sections := first.sections ++ next.sections } else first

/-- The sections of the modules in a binary, in a row. Bundles are inside each other at most `depth`
deep. -/
def modules : (depth : Nat) → Framing → Framing
  | 0, f => { f with complete := false }
  | depth + 1, f =>
    if f.encoding = .module then f
    else
      let bundled := f.sections.filter fun s => Section.isBundled f.encoding s.id
      bundled.foldr (fun s next => (modules depth (of s.content true)).append next)
        ⟨.module, [], f.complete⟩

end Framing

end StaticChain.Wasm

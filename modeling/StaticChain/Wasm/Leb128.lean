/-!
# LEB128

Numbers of the binary format are written in groups of seven bits, lowest first; every byte but the
last has its high bit set. A signed number is sign-extended from the last group. Writing gives the
shortest form, reading accepts any form that fits in the given number of bits.
-/

namespace StaticChain.Wasm

abbrev Bytes := List UInt8

namespace Leb128

/-- The groups of a number, at most `fuel` of them. -/
def unsignedGroups : (fuel : Nat) → Nat → Bytes
  | 0, _ => []
  | fuel + 1, n =>
    if n < 128 then [UInt8.ofNat n]
    else UInt8.ofNat (n % 128 + 128) :: unsignedGroups fuel (n / 128)

def unsigned (n : Nat) : Bytes := unsignedGroups (n + 1) n

/-- The groups of a number with a sign, at most `fuel` of them. -/
def signedGroups : (fuel : Nat) → Int → Bytes
  | 0, _ => []
  | fuel + 1, n =>
    if -64 ≤ n ∧ n < 64 then [UInt8.ofNat (n % 128).toNat]
    else UInt8.ofNat ((n % 128).toNat + 128) :: signedGroups fuel (n / 128)

def signed (n : Int) : Bytes := signedGroups (n.natAbs + 1) n

/-- Reads a number below `2 ^ bits` and returns what follows it. -/
def readUnsigned (bits : Nat) : Bytes → Option (Nat × Bytes)
  | [] => none
  | b :: rest =>
    if b < 128 then
      if b.toNat < 1 <<< bits then some (b.toNat, rest) else none
    else if 7 < bits then
      (readUnsigned (bits - 7) rest).map fun (n, rest) => (b.toNat - 128 + 128 * n, rest)
    else none

/-- Reads a number from `-2 ^ (bits - 1)` to `2 ^ (bits - 1)`, which is not reached, and returns what
follows it. -/
def readSigned (bits : Nat) : Bytes → Option (Int × Bytes)
  | [] => none
  | b :: rest =>
    if b < 64 then
      if b.toNat < 1 <<< (bits - 1) then some (b.toNat, rest) else none
    else if b < 128 then
      if 128 - 1 <<< (bits - 1) ≤ b.toNat then some ((b.toNat : Int) - 128, rest) else none
    else if 7 < bits then
      (readSigned (bits - 7) rest).map fun (n, rest) => ((b.toNat : Int) - 128 + 128 * n, rest)
    else none

end Leb128

end StaticChain.Wasm

/-!
# TOML values

`Toml` is what a TOML text denotes. Numbers are kept exactly as written; `Toml.fits` says whether
all the numbers of a value fit the widest types a reader offers, 128-bit integers and doubles.
-/

namespace StaticChain

namespace Toml

/-- A floating-point number: `±coefficient · 10 ^ exponent`, or one of the two special words. -/
inductive Decimal where
  | finite (negative : Bool) (coefficient : Nat) (exponent : Int)
  | infinity (negative : Bool)
  | nan (negative : Bool)
deriving DecidableEq, Inhabited, Repr

/-- The least number that rounds to no finite double: half a unit above the greatest one. It has 309
digits. -/
def Decimal.bound : Nat := (1 <<< 1024) - (1 <<< 970)

/-- Whether the number is a finite double or says itself that it is not. A decimal whose leading
digit stands at the 309th place before the point is compared with `bound`. -/
def Decimal.fits : Decimal → Bool
  | .finite _ coefficient exponent =>
    let places : Int := (Nat.toDigits 10 coefficient).length + exponent
    if coefficient = 0 ∨ places < 309 then true
    else if 309 < places then false
    else coefficient * Nat.pow 10 exponent.toNat < bound * Nat.pow 10 (-exponent).toNat
  | _ => true

end Toml

/-- A TOML value. -/
inductive Toml where
  | str (text : String)
  | int (value : Int)
  | real (value : Toml.Decimal)
  | bool (value : Bool)
  /-- A date, a time or both, as written. -/
  | moment (lexeme : String)
  | array (items : List Toml)
  | table (entries : List (String × Toml))
deriving Inhabited

namespace Toml

/-- The value under a name of a table. -/
def get? (name : String) : Toml → Option Toml
  | .table entries => (entries.find? fun e => e.1 == name).map Prod.snd
  | _ => none

mutual

/-- Whether every number in the value fits the widest type for it. -/
def fits : Toml → Bool
  | .int value => decide (-(Int.pow 2 127) ≤ value ∧ value < Int.pow 2 128)
  | .real value => value.fits
  | .array items => allFit items
  | .table entries => entriesFit entries
  | _ => true

def allFit : List Toml → Bool
  | [] => true
  | item :: items => item.fits && allFit items

def entriesFit : List (String × Toml) → Bool
  | [] => true
  | (_, value) :: entries => value.fits && entriesFit entries

end

end Toml

end StaticChain

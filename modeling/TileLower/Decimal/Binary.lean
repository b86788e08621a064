/-!
A 64-bit floating point number as an exact binary fraction.
-/
namespace TileLower.Decimal

inductive Reading where
  | nan
  | infinite (negative : Bool)
  | finite (negative : Bool) (significand : Nat) (scale : Int)
  deriving DecidableEq, Repr

def leadingBit : Nat := Nat.pow 2 52

def Reading.ofBits (bits : UInt64) : Reading :=
  let n := bits.toNat
  let negative := Nat.pow 2 63 ≤ n
  let exponent : Nat := n / leadingBit % 2048
  let fraction : Nat := n % leadingBit
  if exponent = 2047 then
    if fraction = 0 then .infinite negative else .nan
  else if exponent = 0 then .finite negative fraction (-1074)
  else .finite negative (leadingBit + fraction) ((exponent : Int) - 1075)

def Reading.ofFloat (x : Float) : Reading := .ofBits x.toBits

def fraction (n : Nat) (scale : Int) : Nat × Nat :=
  if 0 ≤ scale then (n * Nat.pow 2 scale.toNat, 1) else (n, Nat.pow 2 (-scale).toNat)

end TileLower.Decimal

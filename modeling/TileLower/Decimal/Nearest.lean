import TileLower.Decimal.Fixed

/-!
The 64-bit number nearest to a decimal; a tie goes to the one with an even significand. The decimal is
rounded once, on the grid of the significands that its size allows.
-/
namespace TileLower.Decimal

def reaches (num den : Nat) (e : Int) : Bool :=
  if 0 ≤ e then den * Nat.pow 2 e.toNat ≤ num else den ≤ num * Nat.pow 2 (-e).toNat

def binaryExponent (num den : Nat) : Int :=
  let e := (num.log2 : Int) - den.log2
  if reaches num den e then e else e - 1

/-- The bits of a number without a sign from its significand and scale. A significand without a leading
bit has the least scale; one that was rounded up to the next power of two counts one exponent on. -/
def bitsOf (significand : Nat) (scale : Int) : Nat :=
  (scale + 1074).toNat * leadingBit + significand

def infiniteBits : Nat := 2047 * leadingBit

def nearestFraction? (num den : Nat) : Option Float :=
  if num = 0 then some 0
  else
    let scale := max (-1074) (binaryExponent num den - 52)
    let significand :=
      if 0 ≤ scale then roundDiv num (den * Nat.pow 2 scale.toNat)
      else roundDiv (num * Nat.pow 2 (-scale).toNat) den
    let bits := bitsOf significand scale
    if bits < infiniteBits then some (Float.ofBits (UInt64.ofNat bits)) else none

def nearest? (digits : Nat) (exponent : Int) : Option Float :=
  let size := exponent + (Nat.toDigits 10 digits).length
  if digits = 0 || size < -400 then some 0
  else if 400 < size then none
  else if 0 ≤ exponent then nearestFraction? (digits * Nat.pow 10 exponent.toNat) 1
  else nearestFraction? digits (Nat.pow 10 (-exponent).toNat)

end TileLower.Decimal
